import SilverPow.Base.LockOrder
import SilverPow.Base.SoleWriter
import SilverPow.Consensus.Adjustment

/-!
# Concurrent calls of the difficulty adjustment manager

The calls of `src/difficulty_adjustment.rs:111–286` as programs over the three locks of a
manager: which locks a call takes and in which order, what it does alone, and what it writes.
-/

namespace SilverPow.Consensus

open SilverPow.Base SilverPow.Base.Executor DifficultyAdjustmentManager

/-- The locks of a `DifficultyAdjustmentManager`, `src/difficulty_adjustment.rs:70–87`. -/
inductive ManagerLock where
  | currentDifficulty
  | blockTimes
  | adjustmentHistory
  deriving DecidableEq

/-- What the locks guard. -/
abbrev ManagerData : ManagerLock → Type
  | .currentDifficulty => U64
  | .blockTimes => List BlockTimeRecord
  | .adjustmentHistory => List DifficultyAdjustmentRecord

/-- The manager as its locks see it. -/
def DifficultyAdjustmentManager.data (s : DifficultyAdjustmentManager) : ∀ l, ManagerData l
  | .currentDifficulty => s.currentDifficulty
  | .blockTimes => s.blockTimes
  | .adjustmentHistory => s.adjustmentHistory

/-- What a call returns; `R` are the results of the reading calls. -/
inductive ManagerReply (R : Type) where
  | aborted
  | done
  | difficulty (result : Except String U64)
  | value (r : R)

/-- A call of the manager as a program. -/
abbrev ManagerProg (R : Type) : Type := Prog ManagerLock ManagerData (ManagerReply R)

variable {R : Type}

/-! ### The programs -/

/-- Go on with a result that is in range, and abort otherwise. -/
def inRange {A : Type} : Option A → (A → ManagerProg R) → ManagerProg R
  | none, _ => .ret .aborted
  | some a, next => next a

@[simp] theorem inRange_some {A : Type} (a : A) (next : A → ManagerProg R) :
    inRange (some a) next = next a := rfl

/-- Return the current difficulty. -/
def currentProg : ManagerProg R :=
  .lock .currentDifficulty .read <| .get .currentDifficulty fun d ↦ .ret (.difficulty (.ok d))

/-- Store a record and its new difficulty, `src/difficulty_adjustment.rs:195–203`. -/
def adjustProg (record : DifficultyAdjustmentRecord) : ManagerProg R :=
  .lock .adjustmentHistory .write <| .get .adjustmentHistory fun history ↦
  .set .adjustmentHistory (history ++ [record]) <|
  .lock .currentDifficulty .write <| .set .currentDifficulty record.newDifficulty <|
  .ret (.difficulty (.ok record.newDifficulty))

/-- `record_block_time`, `src/difficulty_adjustment.rs:111–124`, with the parameters of `c`. -/
def recordBlockTimeProg (c : DifficultyAdjustmentManager) (height timestamp : U64) :
    ManagerProg R :=
  .lock .blockTimes .write <| .get .blockTimes fun times ↦
  .set .blockTimes (times ++ [⟨height, timestamp⟩]) <|
  inRange (Word.checkedAdd c.adjustmentInterval 1) fun limit ↦
  .set .blockTimes (Log.trim limit.toNat (times ++ [⟨height, timestamp⟩])) <| .ret .done

/-- What `calculate_new_difficulty` does with the block times, with the parameters of `c`,
`src/difficulty_adjustment.rs:130–203`. -/
def periodProg (c : DifficultyAdjustmentManager) (blockHeight now : U64)
    (times : List BlockTimeRecord) : ManagerProg R :=
  if times.length < c.adjustmentInterval.toNat then currentProg
  else
    match times.head?, times.getLast? with
    | some firstBlock, some lastBlock =>
      inRange (Word.checkedSub lastBlock.height firstBlock.height) fun blocksInPeriod ↦
      inRange (Word.checkedSub lastBlock.timestamp firstBlock.timestamp) fun timeForPeriodSecs ↦
      inRange (Word.checkedMul timeForPeriodSecs 1000) fun timeForPeriodMs ↦
        if timeForPeriodSecs = 0 then currentProg
        else
          inRange (Word.checkedMul blocksInPeriod c.targetBlockTimeSecs) fun expectedTimeSecs ↦
          inRange (Word.checkedMul expectedTimeSecs 1000) fun expectedTimeMs ↦
          .lock .currentDifficulty .read <| .get .currentDifficulty fun currentDiff ↦
          .unlock .currentDifficulty <|
          let ratio := c.clampedRatio expectedTimeSecs timeForPeriodSecs
          adjustProg
            { blockHeight
              previousDifficulty := currentDiff
              newDifficulty := { c with currentDifficulty := currentDiff }.finalDifficulty ratio
              adjustmentRatio := ratio
              blocksInPeriod
              timeForPeriodMs
              expectedTimeMs
              timestamp := now }
    | _, _ => .ret (.difficulty (.error "No block times recorded"))

/-- `calculate_new_difficulty`, `src/difficulty_adjustment.rs:127–204`. -/
def calculateNewDifficultyProg (c : DifficultyAdjustmentManager) (blockHeight now : U64) :
    ManagerProg R :=
  .lock .blockTimes .read <| .get .blockTimes fun times ↦ periodProg c blockHeight now times

/-- `set_difficulty`, `src/difficulty_adjustment.rs:212–216`. -/
def setDifficultyProg (difficulty : U64) : ManagerProg R :=
  .lock .currentDifficulty .write <| .set .currentDifficulty difficulty <| .ret .done

/-- A call that reads what one lock guards: `get_current_difficulty`, `get_adjustment_history`
and `get_recent_adjustments`, `src/difficulty_adjustment.rs:207–250`. -/
def readManagerProg (l : ManagerLock) (f : ManagerData l → R) : ManagerProg R :=
  .lock l .read <| .get l fun d ↦ .ret (.value (f d))

/-- `get_stats`, `src/difficulty_adjustment.rs:253–286`: the current difficulty, then the
history and the block times. -/
def getManagerStatsProg
    (f : U64 → List DifficultyAdjustmentRecord → List BlockTimeRecord → R) : ManagerProg R :=
  .lock .currentDifficulty .read <| .get .currentDifficulty fun current ↦
  .unlock .currentDifficulty <|
  .lock .adjustmentHistory .read <| .lock .blockTimes .read <|
  .get .adjustmentHistory fun history ↦ .get .blockTimes fun times ↦
  .ret (.value (f current history times))

/-- The calls of a manager. -/
inductive ManagerCall (R : Type) where
  | recordBlockTime (height timestamp : U64)
  | calculateNewDifficulty (blockHeight now : U64)
  | setDifficulty (difficulty : U64)
  | read (l : ManagerLock) (f : ManagerData l → R)
  | getStats (f : U64 → List DifficultyAdjustmentRecord → List BlockTimeRecord → R)

namespace ManagerCall

/-- The program of a call. -/
def prog (c : DifficultyAdjustmentManager) : ManagerCall R → ManagerProg R
  | .recordBlockTime height timestamp => recordBlockTimeProg c height timestamp
  | .calculateNewDifficulty blockHeight now => calculateNewDifficultyProg c blockHeight now
  | .setDifficulty difficulty => setDifficultyProg difficulty
  | .read l f => readManagerProg l f
  | .getStats f => getManagerStatsProg f

/-- The call records a block time. -/
def Records : ManagerCall R → Prop
  | .recordBlockTime .. => True
  | _ => False

/-- The call calculates a new difficulty. -/
def Calculates : ManagerCall R → Prop
  | .calculateNewDifficulty .. => True
  | _ => False

/-- The call sets the difficulty. -/
def Sets : ManagerCall R → Prop
  | .setDifficulty .. => True
  | _ => False

/-- The call reads the statistics. -/
def ReadsStats : ManagerCall R → Prop
  | .getStats .. => True
  | _ => False

end ManagerCall

/-! ### What a program does alone -/

/-- The manager as its locks see it, after some of what they guard is written. -/
theorem DifficultyAdjustmentManager.data_ext {s : DifficultyAdjustmentManager}
    {data : ∀ l, ManagerData l} (hc : data .currentDifficulty = s.currentDifficulty)
    (ht : data .blockTimes = s.blockTimes)
    (hh : data .adjustmentHistory = s.adjustmentHistory) : data = s.data := by
  funext l
  cases l with
  | currentDifficulty => exact hc
  | blockTimes => exact ht
  | adjustmentHistory => exact hh

/-- Alone, a recording in range does what the call does. -/
theorem exec_recordBlockTimeProg {s s' : DifficultyAdjustmentManager} {height timestamp : U64}
    (h : s.recordBlockTime height timestamp = some s') :
    (recordBlockTimeProg (R := R) s height timestamp).exec s.data = (.done, s'.data) := by
  unfold recordBlockTime at h
  simp only [Option.bind_eq_bind, Option.bind_eq_some_iff] at h
  obtain ⟨limit, hlimit, hs⟩ := h
  cases hs
  simp only [recordBlockTimeProg, hlimit, inRange_some]
  exact Prod.ext rfl (data_ext rfl rfl rfl)

/-- What a calculation in range does with the block times: it returns the current difficulty,
or an error, or it reads the current difficulty and stores a record that depends on it. -/
theorem periodProg_cases {s s' : DifficultyAdjustmentManager} {blockHeight now : U64}
    {result : Except String U64}
    (h : s.calculateNewDifficulty blockHeight now = some (result, s')) :
    (periodProg (R := R) s blockHeight now s.blockTimes = currentProg ∧
      result = .ok s.currentDifficulty ∧ s' = s) ∨
    (periodProg (R := R) s blockHeight now s.blockTimes = .ret (.difficulty result) ∧ s' = s) ∨
    ∃ record : U64 → DifficultyAdjustmentRecord,
      periodProg (R := R) s blockHeight now s.blockTimes =
        (.lock .currentDifficulty .read <| .get .currentDifficulty fun d ↦
          .unlock .currentDifficulty <| adjustProg (record d)) ∧
      (record s.currentDifficulty).previousDifficulty = s.currentDifficulty ∧
      result = .ok (record s.currentDifficulty).newDifficulty ∧
      s' = s.adjust (record s.currentDifficulty) := by
  unfold calculateNewDifficulty at h
  unfold periodProg
  by_cases hlen : s.blockTimes.length < s.adjustmentInterval.toNat
  · rw [if_pos hlen] at h ⊢
    cases h
    exact .inl ⟨rfl, rfl, rfl⟩
  · rw [if_neg hlen] at h ⊢
    cases hfirst : s.blockTimes.head? with
    | none =>
      rw [hfirst] at h
      cases h
      exact .inr (.inl ⟨rfl, rfl⟩)
    | some firstBlock =>
      cases hlast : s.blockTimes.getLast? with
      | none =>
        rw [hfirst, hlast] at h
        cases h
        exact .inr (.inl ⟨rfl, rfl⟩)
      | some lastBlock =>
        simp only [hfirst, hlast, Option.bind_eq_bind, Option.bind_eq_some_iff] at h
        obtain ⟨blocks, hblocks, time, htime, timeMs, hms, h⟩ := h
        simp only [hblocks, htime, hms, inRange_some]
        by_cases hz : time = 0
        · rw [if_pos hz] at h ⊢
          cases h
          exact .inl ⟨rfl, rfl, rfl⟩
        · rw [if_neg hz] at h ⊢
          simp only [Option.bind_eq_some_iff] at h
          obtain ⟨expected, hexpected, expectedMs, hems, h⟩ := h
          cases h
          simp only [hexpected, hems, inRange_some]
          exact .inr (.inr ⟨_, rfl, rfl, rfl, rfl⟩)

/-- Alone, a calculation in range does what the call does. -/
theorem exec_calculateNewDifficultyProg {s s' : DifficultyAdjustmentManager}
    {blockHeight now : U64} {result : Except String U64}
    (h : s.calculateNewDifficulty blockHeight now = some (result, s')) :
    (calculateNewDifficultyProg (R := R) s blockHeight now).exec s.data =
      (.difficulty result, s'.data) := by
  change (periodProg s blockHeight now s.blockTimes).exec s.data = _
  obtain ⟨hp, rfl, rfl⟩ | ⟨hp, rfl⟩ | ⟨record, hp, -, rfl, rfl⟩ := periodProg_cases (R := R) h
  · rw [hp]
    rfl
  · rw [hp]
    rfl
  · rw [hp]
    exact Prod.ext rfl (data_ext rfl rfl rfl)

/-! ### Which locks a call takes -/

/-- Going on within range keeps the order. -/
theorem ordered_inRange {A : Type} {rank : ManagerLock → Nat}
    {held : List (ManagerLock × LockMode)} {next : A → ManagerProg R}
    (h : ∀ a, (next a).Ordered rank held) (o : Option A) : (inRange o next).Ordered rank held := by
  cases o with
  | none => trivial
  | some a => exact h a

/-- An order of the locks fits a call if it has the current difficulty last, and the other two
as the call takes them; the block times need a place in it only for recordings. -/
theorem ManagerCall.ordered_prog {rank : ManagerLock → Nat} (c : DifficultyAdjustmentManager)
    {call : ManagerCall R} (hlast : 0 < rank .currentDifficulty)
    (hrecords : call.Records → 0 < rank .blockTimes)
    (hstats : call.ReadsStats →
      rank .blockTimes = 0 ∨ rank .adjustmentHistory < rank .blockTimes)
    (hcalculates : call.Calculates → rank .blockTimes < rank .adjustmentHistory ∧
      rank .adjustmentHistory < rank .currentDifficulty) :
    (call.prog c).Ordered rank [] := by
  cases call with
  | recordBlockTime height timestamp =>
    refine ⟨.inr ⟨hrecords trivial, by simp⟩, fun times ↦ ordered_inRange (fun limit ↦ ?_) _⟩
    trivial
  | calculateNewDifficulty blockHeight now =>
    obtain ⟨hth, hhc⟩ := hcalculates trivial
    have hcurrent : (currentProg (R := R)).Ordered rank [(.blockTimes, .read)] := by
      simp [currentProg, hlast, hth.trans hhc]
    refine ⟨(Nat.eq_zero_or_pos _).imp (⟨·, rfl⟩) (⟨·, by simp⟩), fun times ↦ ?_⟩
    dsimp only
    rw [periodProg, Prog.ordered_ite]
    refine ⟨fun _ ↦ hcurrent, fun _ ↦ ?_⟩
    split
    · refine ordered_inRange (fun blocks ↦ ordered_inRange (fun time ↦
        ordered_inRange (fun timeMs ↦ ?_) _) _) _
      rw [Prog.ordered_ite]
      refine ⟨fun _ ↦ hcurrent, fun _ ↦ ordered_inRange (fun expected ↦
        ordered_inRange (fun expectedMs ↦ ?_) _) _⟩
      simp [adjustProg, hlast, hth, hhc, hth.trans hhc, (Nat.zero_le _).trans_lt hth]
    · trivial
  | setDifficulty difficulty => simp [prog, setDifficultyProg, hlast]
  | read l f => simp [prog, readManagerProg, Nat.eq_zero_or_pos]
  | getStats f =>
    have horder : rank .blockTimes = 0 ∨
        0 < rank .blockTimes ∧ rank .adjustmentHistory < rank .blockTimes :=
      (hstats trivial).imp_right fun h ↦ ⟨(Nat.zero_le _).trans_lt h, h⟩
    simp [prog, getManagerStatsProg, Nat.eq_zero_or_pos, horder]

/-! ### What a call writes -/

/-- Each record adjusts the difficulty that the one before it led to. -/
def Linked (history : List DifficultyAdjustmentRecord) : Prop :=
  history.IsChain fun record next ↦ next.previousDifficulty = record.newDifficulty

/-- What a calculation writes. -/
def Written (l : ManagerLock) : Prop := l ≠ .blockTimes

/-- That the records are linked depends on nothing else. -/
theorem dependsOn_linked :
    DependsOn Written fun data : ∀ l, ManagerData l ↦ Linked (data .adjustmentHistory) := by
  intro data data' hdata h
  rw [hdata .adjustmentHistory (by simp [Written])]
  exact h

/-- Going on within range keeps what every way keeps. -/
theorem keeps_inRange {A : Type} {own : ManagerLock → Prop} {I : (∀ l, ManagerData l) → Prop}
    {data : ∀ l, ManagerData l} {next : A → ManagerProg R}
    (h : ∀ a, (next a).Keeps own I data) (o : Option A) : (inRange o next).Keeps own I data := by
  cases o with
  | none => trivial
  | some a => exact h a

/-- A calculation that alone writes the records keeps them linked, whatever block times it
comes upon. -/
theorem keeps_calculateNewDifficultyProg {s : DifficultyAdjustmentManager}
    (hlinked : Linked s.adjustmentHistory)
    (hlast : ∀ last ∈ s.adjustmentHistory.getLast?, s.currentDifficulty = last.newDifficulty)
    (blockHeight now : U64) :
    (calculateNewDifficultyProg (R := R) s blockHeight now).Keeps Written
      (fun data ↦ Linked (data .adjustmentHistory)) s.data := by
  intro times _
  dsimp only
  rw [periodProg, Prog.keeps_ite]
  refine ⟨fun _ _ _ ↦ trivial, fun _ ↦ ?_⟩
  split
  · refine keeps_inRange (fun blocks ↦ keeps_inRange (fun time ↦ keeps_inRange (fun timeMs ↦ ?_)
      _) _) _
    rw [Prog.keeps_ite]
    refine ⟨fun _ _ _ ↦ trivial, fun _ ↦ keeps_inRange (fun expected ↦
      keeps_inRange (fun expectedMs ↦ ?_) _) _⟩
    intro current hcurrent history hhistory
    rw [hcurrent (by simp [Written]), hhistory (by simp [Written])]
    have hnext : Linked (s.adjustmentHistory ++
        [{ blockHeight
           previousDifficulty := s.currentDifficulty
           newDifficulty := s.finalDifficulty (s.clampedRatio expected time)
           adjustmentRatio := s.clampedRatio expected time
           blocksInPeriod := blocks
           timeForPeriodMs := timeMs
           expectedTimeMs := expectedMs
           timestamp := now }]) := by
      refine List.isChain_append.mpr ⟨hlinked, List.isChain_singleton _, ?_⟩
      intro last hmem next hnext
      cases hnext
      exact hlast last hmem
    exact ⟨hnext, hnext, trivial⟩
  · trivial

/-- A call that neither calculates nor sets the difficulty writes nothing that a calculation
writes. -/
theorem ManagerCall.spares_prog {c : DifficultyAdjustmentManager} {call : ManagerCall R}
    (hset : ¬call.Sets) (hcalculates : ¬call.Calculates) : (call.prog c).Spares Written := by
  cases call with
  | recordBlockTime height timestamp =>
    refine fun times ↦ ⟨by simp [Written], ?_⟩
    cases Word.checkedAdd c.adjustmentInterval 1 with
    | none => trivial
    | some limit => exact ⟨by simp [Written], trivial⟩
  | calculateNewDifficulty blockHeight now => exact absurd trivial hcalculates
  | setDifficulty difficulty => exact absurd trivial hset
  | read l f => exact fun _ ↦ trivial
  | getStats f => exact fun _ _ _ ↦ trivial

/-- A call that does not set the difficulty keeps the records linked, if no other one writes
them. -/
theorem ManagerCall.keeps_prog {s : DifficultyAdjustmentManager} {call : ManagerCall R}
    (hset : ¬call.Sets) (hlinked : Linked s.adjustmentHistory)
    (hlast : ∀ last ∈ s.adjustmentHistory.getLast?, s.currentDifficulty = last.newDifficulty) :
    (call.prog s).Keeps Written (fun data ↦ Linked (data .adjustmentHistory)) s.data := by
  by_cases hcalculates : call.Calculates
  · cases call with
    | calculateNewDifficulty blockHeight now =>
      exact keeps_calculateNewDifficultyProg hlinked hlast blockHeight now
    | _ => exact hcalculates.elim
  · exact (spares_prog hset hcalculates).keeps dependsOn_linked hlinked

end SilverPow.Consensus
