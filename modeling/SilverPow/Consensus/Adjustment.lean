import Mathlib.Data.List.Chain
import SilverPow.Base.Log
import SilverPow.Base.Ratio
import SilverPow.Base.Run

/-!
# The difficulty adjustment manager

`src/difficulty_adjustment.rs`: the times of the last blocks give a ratio, and the difficulty is
scaled by it within a factor of four and the bounds of the manager. Floating-point operations
are read as exact rationals. An operation whose arithmetic leaves its range aborts, so a run is
one of operations that stay in range.
-/

namespace SilverPow.Consensus

open SilverPow.Base

/-- `DifficultyAdjustmentRecord`, `src/difficulty_adjustment.rs:12–29`. -/
structure DifficultyAdjustmentRecord where
  blockHeight : U64
  previousDifficulty : U64
  newDifficulty : U64
  adjustmentRatio : ℚ
  blocksInPeriod : U64
  timeForPeriodMs : U64
  expectedTimeMs : U64
  timestamp : U64
  deriving DecidableEq

/-- `BlockTimeRecord`, `src/difficulty_adjustment.rs:62–67`. -/
structure BlockTimeRecord where
  height : U64
  timestamp : U64
  deriving DecidableEq

/-- `DifficultyAdjustmentManager`, `src/difficulty_adjustment.rs:70–87`. -/
structure DifficultyAdjustmentManager where
  currentDifficulty : U64
  blockTimes : List BlockTimeRecord
  adjustmentHistory : List DifficultyAdjustmentRecord
  adjustmentInterval : U64
  targetBlockTimeSecs : U64
  minDifficulty : U64
  maxDifficulty : U64
  maxAdjustmentRatio : ℚ
  deriving DecidableEq

/-- A call, with the clock reading of the record that it may write. -/
inductive AdjustmentEvent where
  | recordBlockTime (height timestamp : U64)
  | calculateNewDifficulty (blockHeight now : U64)

/-- What `record_block_time` is called with. -/
def AdjustmentEvent.recorded : AdjustmentEvent → Option BlockTimeRecord
  | .recordBlockTime height timestamp => some ⟨height, timestamp⟩
  | .calculateNewDifficulty _ _ => none

namespace DifficultyAdjustmentManager

/-- `DifficultyAdjustmentManager::new`, `src/difficulty_adjustment.rs:91–108`. -/
def new (initialDifficulty adjustmentInterval targetBlockTimeSecs minDifficulty
    maxDifficulty : U64) : DifficultyAdjustmentManager where
  currentDifficulty := initialDifficulty
  blockTimes := []
  adjustmentHistory := []
  adjustmentInterval
  targetBlockTimeSecs
  minDifficulty
  maxDifficulty
  maxAdjustmentRatio := 4

/-- `record_block_time`, `src/difficulty_adjustment.rs:111–124`. -/
def recordBlockTime (s : DifficultyAdjustmentManager) (height timestamp : U64) :
    Option DifficultyAdjustmentManager := do
  let limit ← Word.checkedAdd s.adjustmentInterval 1
  return { s with blockTimes := Log.trim limit.toNat (s.blockTimes ++ [⟨height, timestamp⟩]) }

/-- The clamped ratio of the expected to the actual time, `src/difficulty_adjustment.rs:162–167`. -/
def clampedRatio (s : DifficultyAdjustmentManager) (expectedTimeSecs timeForPeriodSecs : U64) : ℚ :=
  let adjustmentRatio : ℚ := expectedTimeSecs.toNat / timeForPeriodSecs.toNat
  Ratio.clamp adjustmentRatio (1 / s.maxAdjustmentRatio) s.maxAdjustmentRatio

/-- The current difficulty scaled by a ratio, `src/difficulty_adjustment.rs:170–177`. -/
def finalDifficulty (s : DifficultyAdjustmentManager) (ratio : ℚ) : U64 :=
  let newDifficulty := Ratio.truncate 64 (s.currentDifficulty.toNat * ratio)
  Word.smaller (Word.larger newDifficulty s.minDifficulty) s.maxDifficulty

/-- The record is stored, and its new difficulty is the current one from now on. -/
def adjust (s : DifficultyAdjustmentManager) (record : DifficultyAdjustmentRecord) :
    DifficultyAdjustmentManager :=
  { s with
    adjustmentHistory := s.adjustmentHistory ++ [record]
    currentDifficulty := record.newDifficulty }

/-- `calculate_new_difficulty`, `src/difficulty_adjustment.rs:127–204`, with the clock. -/
def calculateNewDifficulty (s : DifficultyAdjustmentManager) (blockHeight now : U64) :
    Option (Except String U64 × DifficultyAdjustmentManager) :=
  if s.blockTimes.length < s.adjustmentInterval.toNat then some (.ok s.currentDifficulty, s)
  else
    match s.blockTimes.head?, s.blockTimes.getLast? with
    | some firstBlock, some lastBlock => do
      let blocksInPeriod ← Word.checkedSub lastBlock.height firstBlock.height
      let timeForPeriodSecs ← Word.checkedSub lastBlock.timestamp firstBlock.timestamp
      let timeForPeriodMs ← Word.checkedMul timeForPeriodSecs 1000
      if timeForPeriodSecs = 0 then return (.ok s.currentDifficulty, s)
      else
        let expectedTimeSecs ← Word.checkedMul blocksInPeriod s.targetBlockTimeSecs
        let expectedTimeMs ← Word.checkedMul expectedTimeSecs 1000
        let ratio := s.clampedRatio expectedTimeSecs timeForPeriodSecs
        let record : DifficultyAdjustmentRecord :=
          { blockHeight
            previousDifficulty := s.currentDifficulty
            newDifficulty := s.finalDifficulty ratio
            adjustmentRatio := ratio
            blocksInPeriod
            timeForPeriodMs
            expectedTimeMs
            timestamp := now }
        return (.ok record.newDifficulty, s.adjust record)
    | _, _ => some (.error "No block times recorded", s)

/-- `get_recent_adjustments`, `src/difficulty_adjustment.rs:239–250`. -/
def getRecentAdjustments (s : DifficultyAdjustmentManager) (count : Nat) :
    List DifficultyAdjustmentRecord :=
  (s.adjustmentHistory.reverse.take count).reverse

/-- The manager after a call that stays in range. -/
def perform (s : DifficultyAdjustmentManager) :
    AdjustmentEvent → Option DifficultyAdjustmentManager
  | .recordBlockTime height timestamp => s.recordBlockTime height timestamp
  | .calculateNewDifficulty blockHeight now =>
    (s.calculateNewDifficulty blockHeight now).map Prod.snd

/-- The states that calls lead to, in any order. -/
abbrev AdjustmentRun (s₀ : DifficultyAdjustmentManager) :
    List AdjustmentEvent → DifficultyAdjustmentManager → Prop :=
  Run (fun s e s' ↦ s.perform e = some s') s₀

/-! ### What one call does -/

variable {s s' : DifficultyAdjustmentManager}

@[simp] theorem adjustmentHistory_adjust (record : DifficultyAdjustmentRecord) :
    (s.adjust record).adjustmentHistory = s.adjustmentHistory ++ [record] := rfl

@[simp] theorem currentDifficulty_adjust (record : DifficultyAdjustmentRecord) :
    (s.adjust record).currentDifficulty = record.newDifficulty := rfl

/-- A record of an adjustment of a manager: from the current difficulty to the one scaled by
a ratio in the range of the manager. -/
structure Adjusts (s : DifficultyAdjustmentManager) (record : DifficultyAdjustmentRecord) :
    Prop where
  previous : record.previousDifficulty = s.currentDifficulty
  new : record.newDifficulty = s.finalDifficulty record.adjustmentRatio
  ratio : 1 / s.maxAdjustmentRatio ≤ s.maxAdjustmentRatio →
    1 / s.maxAdjustmentRatio ≤ record.adjustmentRatio ∧
      record.adjustmentRatio ≤ s.maxAdjustmentRatio

/-- Recording a time keeps the last of them and touches nothing else. -/
theorem recordBlockTime_eq {height timestamp : U64}
    (h : s.recordBlockTime height timestamp = some s') :
    s' = { s with blockTimes := s'.blockTimes } ∧
      s'.blockTimes =
        List.rtake (s.blockTimes ++ [⟨height, timestamp⟩]) (s.adjustmentInterval.toNat + 1) := by
  unfold recordBlockTime at h
  simp only [Option.bind_eq_bind, Option.bind_eq_some_iff] at h
  obtain ⟨limit, hlimit, hs⟩ := h
  cases hs
  refine ⟨rfl, ?_⟩
  rw [Log.trim_eq_rtake, Word.toNat_of_checkedAdd hlimit]
  rfl

/-- A calculation changes nothing and returns the current difficulty, or stores one record and
returns its new difficulty; without any times it is an error. -/
theorem calculateNewDifficulty_cases {blockHeight now : U64} {result : Except String U64}
    (h : s.calculateNewDifficulty blockHeight now = some (result, s')) :
    (result = .ok s.currentDifficulty ∧ s' = s) ∨
      (∃ record, s.Adjusts record ∧ result = .ok record.newDifficulty ∧ s' = s.adjust record) ∨
      (s.adjustmentInterval.toNat = 0 ∧ result = .error "No block times recorded" ∧ s' = s) := by
  unfold calculateNewDifficulty at h
  split at h
  · cases h
    exact .inl ⟨rfl, rfl⟩
  · next hlen =>
    split at h
    · simp only [Option.bind_eq_bind, Option.bind_eq_some_iff] at h
      obtain ⟨blocks, -, time, -, timeMs, -, h⟩ := h
      split at h
      · cases h
        exact .inl ⟨rfl, rfl⟩
      · simp only [Option.bind_eq_some_iff] at h
        obtain ⟨expected, -, expectedMs, -, h⟩ := h
        cases h
        refine .inr (.inl ⟨_, ?_, rfl, rfl⟩)
        exact ⟨rfl, rfl, fun hle ↦ Ratio.clamp_mem hle⟩
    · next hempty =>
      cases h
      refine .inr (.inr ⟨?_, rfl, rfl⟩)
      cases htimes : s.blockTimes with
      | nil =>
        rw [htimes] at hlen
        exact Nat.eq_zero_of_not_pos hlen
      | cons time times =>
        rw [htimes] at hempty
        exact absurd List.getLast?_cons (hempty time _ List.head?_cons)

/-- Below the largest interval, recording a time does not abort. -/
theorem recordBlockTime_isSome (height timestamp : U64)
    (h : s.adjustmentInterval.toNat + 1 < 2 ^ 64) :
    (s.recordBlockTime height timestamp).isSome := by
  unfold recordBlockTime
  rw [Word.checkedAdd_of_lt (b := 1) h]
  rfl

/-- The products of a calculation for this period are in range. -/
def ProductsInRange (s : DifficultyAdjustmentManager) (firstBlock lastBlock : BlockTimeRecord) :
    Prop :=
  (lastBlock.timestamp.toNat - firstBlock.timestamp.toNat) * 1000 < 2 ^ 64 ∧
    (lastBlock.height.toNat - firstBlock.height.toNat) * s.targetBlockTimeSecs.toNat * 1000 <
      2 ^ 64

/-- Where the period ends no earlier than it starts and the products are in range, the
calculation does not abort. -/
theorem calculateNewDifficulty_isSome (blockHeight now : U64)
    (h : ∀ firstBlock ∈ s.blockTimes.head?, ∀ lastBlock ∈ s.blockTimes.getLast?,
      firstBlock.height ≤ lastBlock.height ∧ firstBlock.timestamp ≤ lastBlock.timestamp ∧
        s.ProductsInRange firstBlock lastBlock) :
    (s.calculateNewDifficulty blockHeight now).isSome := by
  unfold calculateNewDifficulty
  split
  · rfl
  · split
    · next firstBlock lastBlock hfirst hlast =>
      obtain ⟨hheight, htime, hms, hexpected⟩ := h _ hfirst _ hlast
      have hblocks := BitVec.toNat_sub_of_le hheight
      have hsecs := BitVec.toNat_sub_of_le htime
      rw [← hsecs] at hms
      rw [← hblocks] at hexpected
      have hproduct : (lastBlock.height - firstBlock.height).toNat *
          s.targetBlockTimeSecs.toNat < 2 ^ 64 := by omega
      have hexact : ((lastBlock.height - firstBlock.height) * s.targetBlockTimeSecs).toNat =
          (lastBlock.height - firstBlock.height).toNat * s.targetBlockTimeSecs.toNat := by
        rw [BitVec.toNat_mul, Nat.mod_eq_of_lt hproduct]
      rw [← hexact] at hexpected
      simp only [Word.checkedSub_of_le (BitVec.le_def.mp hheight),
        Word.checkedSub_of_le (BitVec.le_def.mp htime), Word.checkedMul_of_lt hproduct,
        Word.checkedMul_of_lt (b := 1000) hms, Word.checkedMul_of_lt (b := 1000) hexpected,
        Option.bind_eq_bind, Option.bind_some]
      split <;> rfl
    · rfl

/-! ### Runs -/

/-- The bounds and the interval are those of the start. -/
structure SameParameters (s₀ s : DifficultyAdjustmentManager) : Prop where
  interval : s.adjustmentInterval = s₀.adjustmentInterval
  min : s.minDifficulty = s₀.minDifficulty
  max : s.maxDifficulty = s₀.maxDifficulty
  ratio : s.maxAdjustmentRatio = s₀.maxAdjustmentRatio

/-- The new difficulty of a record is between the bounds, and within a factor of four of the
previous one. -/
structure Bounded (minDifficulty maxDifficulty : U64) (record : DifficultyAdjustmentRecord) :
    Prop where
  min : minDifficulty ≤ record.newDifficulty
  max : record.newDifficulty ≤ maxDifficulty
  quarter : record.previousDifficulty.toNat / 4 ≤ record.newDifficulty.toNat
  fourfold : record.newDifficulty.toNat ≤ 4 * record.previousDifficulty.toNat

/-- The stored times are the last that were recorded; the records lead from the initial to
the current difficulty, each within its bounds. -/
structure HistoryBounded (s₀ : DifficultyAdjustmentManager) (es : List AdjustmentEvent)
    (s : DifficultyAdjustmentManager) : Prop where
  blockTimes : s.blockTimes =
    (es.filterMap AdjustmentEvent.recorded).rtake (s₀.adjustmentInterval.toNat + 1)
  first : ∀ record ∈ s.adjustmentHistory.head?,
    record.previousDifficulty = s₀.currentDifficulty
  linked : s.adjustmentHistory.IsChain fun record next ↦
    next.previousDifficulty = record.newDifficulty
  last : s.currentDifficulty =
    (s.adjustmentHistory.getLast?).elim s₀.currentDifficulty (·.newDifficulty)
  bounded : ∀ record ∈ s.adjustmentHistory, Bounded s₀.minDifficulty s₀.maxDifficulty record
  recent : ∀ count, s.getRecentAdjustments count = s.adjustmentHistory.rtake count

/-- The last records. -/
theorem getRecentAdjustments_eq (s : DifficultyAdjustmentManager) (count : Nat) :
    s.getRecentAdjustments count = s.adjustmentHistory.rtake count :=
  (List.rtake_eq_reverse_take_reverse _ _).symm

/-- The state of a run: the parameters of the start, a bounded history, and a current
difficulty within the bounds. -/
structure Invariant (s₀ : DifficultyAdjustmentManager) (es : List AdjustmentEvent)
    (s : DifficultyAdjustmentManager) : Prop where
  same : SameParameters s₀ s
  history : HistoryBounded s₀ es s
  min : s₀.minDifficulty ≤ s.currentDifficulty
  max : s.currentDifficulty ≤ s₀.maxDifficulty

/-- The difficulty that an adjustment leads to is between the bounds, and within a factor of
four of the current one. -/
theorem bounded_of_adjusts {record : DifficultyAdjustmentRecord} (h : s.Adjusts record)
    (hratio : s.maxAdjustmentRatio = 4) (hmin : s.minDifficulty ≤ s.currentDifficulty)
    (hmax : s.currentDifficulty ≤ s.maxDifficulty) :
    Bounded s.minDifficulty s.maxDifficulty record := by
  have hrange := h.ratio
  rw [hratio] at hrange
  obtain ⟨hlo, hhi⟩ := hrange (by norm_num)
  have hquarter := Ratio.div_le_truncate (k := 4) s.currentDifficulty (by exact_mod_cast hlo)
  have hfourfold := Ratio.truncate_le_mul (k := 4) s.currentDifficulty (by exact_mod_cast hhi)
  have hnew : record.newDifficulty.toNat =
      min (max (Ratio.truncate 64 (s.currentDifficulty.toNat * record.adjustmentRatio)).toNat
        s.minDifficulty.toNat) s.maxDifficulty.toNat := by
    rw [h.new, finalDifficulty, Word.toNat_smaller, Word.toNat_larger]
  rw [BitVec.le_def] at hmin hmax
  constructor
  · rw [BitVec.le_def]
    omega
  · rw [BitVec.le_def]
    omega
  · rw [h.previous]
    omega
  · rw [h.previous]
    omega

section Runs

variable {s₀ : DifficultyAdjustmentManager} {es : List AdjustmentEvent}

/-- Recording a time keeps the invariant. -/
theorem Invariant.recordBlockTime (h : Invariant s₀ es s) {height timestamp : U64}
    (hs : s.recordBlockTime height timestamp = some s') :
    Invariant s₀ (es ++ [.recordBlockTime height timestamp]) s' := by
  obtain ⟨hs', htimes⟩ := recordBlockTime_eq hs
  rw [h.same.interval, h.history.blockTimes, Log.rtake_rtake_concat] at htimes
  rw [hs']
  refine ⟨⟨h.same.interval, h.same.min, h.same.max, h.same.ratio⟩, ?_, h.min, h.max⟩
  refine ⟨?_, h.history.first, h.history.linked, h.history.last, h.history.bounded,
    h.history.recent⟩
  rw [List.filterMap_append]
  exact htimes

/-- A calculation records no time. -/
theorem filterMap_recorded_calculate (blockHeight now : U64) :
    List.filterMap AdjustmentEvent.recorded (es ++ [.calculateNewDifficulty blockHeight now]) =
      es.filterMap AdjustmentEvent.recorded := by
  rw [List.filterMap_append]
  exact List.append_nil _

/-- An adjustment keeps the invariant. -/
theorem Invariant.adjust (h : Invariant s₀ es s) (hratio : s₀.maxAdjustmentRatio = 4)
    {record : DifficultyAdjustmentRecord} (hr : s.Adjusts record) (blockHeight now : U64) :
    Invariant s₀ (es ++ [.calculateNewDifficulty blockHeight now]) (s.adjust record) := by
  have hbounded := bounded_of_adjusts hr (h.same.ratio.trans hratio)
    (h.same.min ▸ h.min) (h.same.max ▸ h.max)
  rw [h.same.min, h.same.max] at hbounded
  refine ⟨⟨h.same.interval, h.same.min, h.same.max, h.same.ratio⟩, ?_, hbounded.min,
    hbounded.max⟩
  constructor
  · rw [filterMap_recorded_calculate]
    exact h.history.blockTimes
  · intro first hfirst
    rw [adjustmentHistory_adjust, List.head?_append] at hfirst
    cases hhead : s.adjustmentHistory.head? with
    | none =>
      have hcurrent := h.history.last
      rw [List.head?_eq_none_iff] at hhead
      rw [hhead] at hfirst hcurrent
      cases hfirst
      rw [hr.previous, hcurrent]
      rfl
    | some old =>
      rw [hhead] at hfirst
      cases hfirst
      exact h.history.first first hhead
  · rw [adjustmentHistory_adjust]
    apply List.isChain_append.mpr
    refine ⟨h.history.linked, List.isChain_singleton record, ?_⟩
    intro old hold next hnext
    cases hnext
    rw [hr.previous, h.history.last, hold]
    rfl
  · simp
  · rw [adjustmentHistory_adjust]
    exact List.forall_mem_append.mpr
      ⟨h.history.bounded, List.forall_mem_singleton.mpr hbounded⟩
  · exact getRecentAdjustments_eq _

/-- A calculation that changes nothing keeps the invariant. -/
theorem Invariant.skip (h : Invariant s₀ es s) (blockHeight now : U64) :
    Invariant s₀ (es ++ [.calculateNewDifficulty blockHeight now]) s := by
  refine ⟨h.same, ?_, h.min, h.max⟩
  refine ⟨?_, h.history.first, h.history.linked, h.history.last, h.history.bounded,
    h.history.recent⟩
  rw [filterMap_recorded_calculate]
  exact h.history.blockTimes

/-- Every call keeps the invariant. -/
theorem Invariant.perform (h : Invariant s₀ es s) (hratio : s₀.maxAdjustmentRatio = 4)
    {e : AdjustmentEvent} (hs : s.perform e = some s') : Invariant s₀ (es ++ [e]) s' := by
  cases e with
  | recordBlockTime height timestamp => exact h.recordBlockTime hs
  | calculateNewDifficulty blockHeight now =>
    obtain ⟨⟨result, t⟩, hcalculate, rfl⟩ := Option.map_eq_some_iff.mp hs
    obtain ⟨-, rfl⟩ | ⟨record, hrecord, -, rfl⟩ | ⟨-, -, rfl⟩ :=
      calculateNewDifficulty_cases hcalculate
    · exact h.skip blockHeight now
    · exact h.adjust hratio hrecord blockHeight now
    · exact h.skip blockHeight now

/-- A new manager meets the invariant. -/
theorem invariant_new (initialDifficulty adjustmentInterval targetBlockTimeSecs minDifficulty
    maxDifficulty : U64) (hmin : minDifficulty ≤ initialDifficulty)
    (hmax : initialDifficulty ≤ maxDifficulty) :
    let s₀ := new initialDifficulty adjustmentInterval targetBlockTimeSecs minDifficulty
      maxDifficulty
    Invariant s₀ [] s₀ := by
  refine ⟨⟨rfl, rfl, rfl, rfl⟩, ?_, hmin, hmax⟩
  constructor
  · simp [new]
  · intro record hrecord
    cases hrecord
  · exact .nil
  · rfl
  · intro record hrecord
    cases hrecord
  · exact getRecentAdjustments_eq _

/-- In every run the history of a manager whose initial difficulty is within its bounds is a
chain of bounded adjustments from the initial to the current difficulty. -/
theorem historyBounded_of_run {initialDifficulty adjustmentInterval targetBlockTimeSecs
    minDifficulty maxDifficulty : U64} (hmin : minDifficulty ≤ initialDifficulty)
    (hmax : initialDifficulty ≤ maxDifficulty)
    (h : AdjustmentRun (new initialDifficulty adjustmentInterval targetBlockTimeSecs minDifficulty
      maxDifficulty) es s) :
    HistoryBounded (new initialDifficulty adjustmentInterval targetBlockTimeSecs minDifficulty
      maxDifficulty) es s := by
  have hi := h.historyInvariant (Invariant _)
    (invariant_new _ adjustmentInterval targetBlockTimeSecs _ _ hmin hmax)
    fun _ _ _ _ hi hs ↦ hi.perform rfl hs
  exact hi.history

/-! ### Times that do not decrease -/

/-- Heights and timestamps do not decrease. -/
def NonDecreasing (times : List BlockTimeRecord) : Prop :=
  times.Pairwise fun a b ↦ a.height ≤ b.height ∧ a.timestamp ≤ b.timestamp

/-- The last of them is no lower and no earlier than the first. -/
theorem NonDecreasing.head_le_last {times : List BlockTimeRecord} (h : NonDecreasing times)
    {first last : BlockTimeRecord} (hfirst : first ∈ times.head?) (hlast : last ∈ times.getLast?) :
    first.height ≤ last.height ∧ first.timestamp ≤ last.timestamp := by
  cases times with
  | nil => cases hfirst
  | cons time times =>
    cases hfirst
    obtain rfl | hmem := List.mem_cons.mp (List.mem_of_getLast? hlast)
    · exact ⟨BitVec.le_refl _, BitVec.le_refl _⟩
    · exact List.rel_of_pairwise_cons h hmem

/-- Where the recorded times do not decrease and the products are in range, no calculation
of a run aborts. -/
theorem HistoryBounded.calculateNewDifficulty_isSome (h : HistoryBounded s₀ es s)
    (hrecorded : NonDecreasing (es.filterMap AdjustmentEvent.recorded))
    (hproducts : ∀ first ∈ s.blockTimes.head?, ∀ last ∈ s.blockTimes.getLast?,
      s.ProductsInRange first last) (blockHeight now : U64) :
    (s.calculateNewDifficulty blockHeight now).isSome := by
  have hwindow : NonDecreasing s.blockTimes := by
    rw [h.blockTimes]
    exact hrecorded.sublist (List.drop_sublist _ _)
  apply DifficultyAdjustmentManager.calculateNewDifficulty_isSome
  intro first hfirst last hlast
  obtain ⟨hheight, htime⟩ := hwindow.head_le_last hfirst hlast
  exact ⟨hheight, htime, hproducts first hfirst last hlast⟩

end Runs

/-- Two blocks in half the target time. -/
def fastEvents : List AdjustmentEvent :=
  [.recordBlockTime 1 1000, .recordBlockTime 2 1300, .calculateNewDifficulty 2 1300]

/-- A manager after these blocks. -/
def fastManager : DifficultyAdjustmentManager where
  currentDifficulty := 2000
  blockTimes := [⟨1, 1000⟩, ⟨2, 1300⟩]
  adjustmentHistory := [⟨2, 1000, 2000, 2, 1, 300_000, 600_000, 1300⟩]
  adjustmentInterval := 1
  targetBlockTimeSecs := 600
  minDifficulty := 100
  maxDifficulty := 10_000
  maxAdjustmentRatio := 4

/-- The difficulty doubles. -/
theorem historyBounded_fast :
    HistoryBounded (new 1000 1 600 100 10_000) fastEvents fastManager := by
  apply historyBounded_of_run (by decide) (by decide)
  have h₁ : (new 1000 1 600 100 10_000).perform (.recordBlockTime 1 1000) =
      some { new 1000 1 600 100 10_000 with blockTimes := [⟨1, 1000⟩] } := by
    decide +kernel
  have h₂ : DifficultyAdjustmentManager.perform
      { new 1000 1 600 100 10_000 with blockTimes := [⟨1, 1000⟩] } (.recordBlockTime 2 1300) =
      some { new 1000 1 600 100 10_000 with blockTimes := [⟨1, 1000⟩, ⟨2, 1300⟩] } := by
    decide +kernel
  have h₃ : DifficultyAdjustmentManager.perform
      { new 1000 1 600 100 10_000 with blockTimes := [⟨1, 1000⟩, ⟨2, 1300⟩] }
      (.calculateNewDifficulty 2 1300) = some fastManager := by
    decide +kernel
  exact .snoc (.snoc (.snoc .nil h₁) h₂) h₃

end DifficultyAdjustmentManager
end SilverPow.Consensus
