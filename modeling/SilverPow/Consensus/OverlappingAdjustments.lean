import SilverPow.Base.Jams
import SilverPow.Consensus.ConcurrentAdjustments

/-!
# Overlapping calls of the difficulty adjustment manager

A calculation gives the current difficulty back before it writes the new one, and holds the
block times only for reading: calculations that overlap adjust one and the same difficulty, and
their records no longer lead from one to the next. And a calculation, a call for the statistics
and a recording of a block time can keep each other waiting, although no two of them can.
-/

namespace SilverPow.Consensus

open SilverPow.Base SilverPow.Base.Executor DifficultyAdjustmentManager

variable {R : Type}

/-! ### A manager that has an adjustment due -/

/-- A manager with the parameters of `c` that has just recorded a period of one second. -/
def due (c : DifficultyAdjustmentManager) : DifficultyAdjustmentManager :=
  { c with blockTimes := List.replicate c.adjustmentInterval.toNat ⟨0, 0⟩ ++ [⟨0, 1⟩] }

/-- A time for which there is room is recorded after the others. -/
theorem recordBlockTime_of_room {c : DifficultyAdjustmentManager} {times : List BlockTimeRecord}
    (hlimit : c.adjustmentInterval.toNat + 1 < 2 ^ 64)
    (hroom : times.length ≤ c.adjustmentInterval.toNat) (height timestamp : U64) :
    { c with blockTimes := times }.recordBlockTime height timestamp =
      some { c with blockTimes := times ++ [⟨height, timestamp⟩] } := by
  have hadd := Word.checkedAdd_of_lt (a := c.adjustmentInterval) (b := 1) hlimit
  have htrim : Log.trim (c.adjustmentInterval + 1).toNat (times ++ [⟨height, timestamp⟩]) =
      times ++ [⟨height, timestamp⟩] := by
    have hlen : times.length + 1 ≤ (c.adjustmentInterval + 1).toNat := by
      rw [Word.toNat_of_checkedAdd hadd]
      exact Nat.add_le_add_right hroom 1
    rw [Log.trim_eq_rtake, List.rtake, List.length_append, List.length_singleton,
      Nat.sub_eq_zero_of_le hlen, List.drop_zero]
  rw [recordBlockTime, hadd, Option.bind_eq_bind, Option.bind_some, htrim]
  rfl

/-- Recordings lead there. -/
theorem exists_run_due {c : DifficultyAdjustmentManager} (hc : c.blockTimes = [])
    (hlimit : c.adjustmentInterval.toNat + 1 < 2 ^ 64) : ∃ es, AdjustmentRun c es (due c) := by
  have hzeros (n : Nat) (hn : n ≤ c.adjustmentInterval.toNat) :
      ∃ es, AdjustmentRun c es { c with blockTimes := List.replicate n ⟨0, 0⟩ } := by
    induction n with
    | zero =>
      refine ⟨[], ?_⟩
      rw [List.replicate_zero, ← hc]
      exact .nil
    | succ n ih =>
      obtain ⟨es, hr⟩ := ih (by omega)
      have hroom : (List.replicate n (⟨0, 0⟩ : BlockTimeRecord)).length ≤
          c.adjustmentInterval.toNat := by
        rw [List.length_replicate]
        omega
      refine ⟨_, hr.snoc (e := .recordBlockTime 0 0) ?_⟩
      rw [List.replicate_succ']
      exact recordBlockTime_of_room hlimit hroom 0 0
  obtain ⟨es, hr⟩ := hzeros _ le_rfl
  refine ⟨_, hr.snoc (e := .recordBlockTime 0 1) ?_⟩
  exact recordBlockTime_of_room hlimit List.length_replicate.le 0 1

/-- It adjusts. -/
theorem calculateNewDifficulty_due {c : DifficultyAdjustmentManager}
    (hi : c.adjustmentInterval ≠ 0) (blockHeight now : U64) :
    ∃ record, (due c).calculateNewDifficulty blockHeight now =
        some (.ok record.newDifficulty, (due c).adjust record) ∧
      record.previousDifficulty = c.currentDifficulty ∧
      record.newDifficulty = c.finalDifficulty (c.clampedRatio 0 1) := by
  obtain ⟨n, hn⟩ : ∃ n, c.adjustmentInterval.toNat = n + 1 :=
    Nat.exists_eq_succ_of_ne_zero fun h ↦ hi (BitVec.eq_of_toNat_eq h)
  have hfirst : (due c).blockTimes.head? = some ⟨0, 0⟩ := by
    simp [due, hn, List.replicate_succ]
  have hlast : (due c).blockTimes.getLast? = some ⟨0, 1⟩ := List.getLast?_concat ..
  have hlen : ¬(due c).blockTimes.length < (due c).adjustmentInterval.toNat := by simp [due]
  have hblocks : Word.checkedSub (0 : U64) 0 = some 0 := by decide
  have htime : Word.checkedSub (1 : U64) 0 = some 1 := by decide
  have hms : Word.checkedMul (1 : U64) 1000 = some 1000 := by decide
  have hone : ¬(1 : U64) = 0 := by decide
  have hzero (b : U64) : Word.checkedMul 0 b = some 0 := by
    rw [Word.checkedMul_of_lt (by simp)]
    simp
  unfold calculateNewDifficulty
  simp only [if_neg hlen, hfirst, hlast, hblocks, htime, hms, hzero, if_neg hone,
    Option.bind_eq_bind, Option.bind_some]
  exact ⟨⟨_, _, _, _, _, _, _, _⟩, rfl, rfl, rfl⟩

/-- A calculation that adjusts comes to ask for the history, with the record that it will store,
as long as nobody writes what it reads. -/
theorem after_calculateNewDifficultyProg {s : DifficultyAdjustmentManager} {blockHeight now : U64}
    {record : DifficultyAdjustmentRecord}
    (h : s.calculateNewDifficulty blockHeight now =
      some (.ok record.newDifficulty, s.adjust record))
    (busy : List (ManagerLock × LockMode)) (hbusy : ∀ b ∈ busy, b.2 = .read) :
    (calculateNewDifficultyProg (R := R) s blockHeight now).after busy 5 s.data [] =
      (s.data, adjustProg record, [(.blockTimes, .read)]) := by
  have hadjust : s.adjust record ≠ s := by
    intro he
    have hlen := congrArg (·.adjustmentHistory.length) he
    simp at hlen
  have hfree (l : ManagerLock) : ¬∃ b ∈ busy, b.1 = l ∧ ¬LockMode.read.Shares b.2 := by
    rintro ⟨b, hb, -, hshares⟩
    exact hshares ⟨rfl, hbusy b hb⟩
  have htimes : s.data .blockTimes = s.blockTimes := rfl
  rw [calculateNewDifficultyProg, Prog.after, if_neg (by simp [hfree]), Prog.after, htimes]
  obtain ⟨-, -, hs⟩ | ⟨-, hs⟩ | ⟨record', hp, -, -, hs⟩ := periodProg_cases (R := R) h
  · exact absurd hs hadjust
  · exact absurd hs hadjust
  · have hrecord : record = record' s.currentDifficulty := by
      have hhistory := congrArg DifficultyAdjustmentManager.adjustmentHistory hs
      simpa using hhistory
    rw [hp, hrecord, Prog.after, if_neg (by simp [hfree])]
    rfl

/-! ### Which calls keep each other waiting -/

/-- The place of the locks where nothing calculates. -/
def rankWithoutCalculations : ManagerLock → Nat
  | .adjustmentHistory => 1
  | .blockTimes => 2
  | .currentDifficulty => 3

/-- The place of the locks where nothing reads the statistics. -/
def rankWithoutStats : ManagerLock → Nat
  | .blockTimes => 1
  | .adjustmentHistory => 2
  | .currentDifficulty => 3

/-- The place of the locks where nothing records: the block times are only read. -/
def rankWithoutRecordings : ManagerLock → Nat
  | .blockTimes => 0
  | .adjustmentHistory => 1
  | .currentDifficulty => 2

/-- A call for the statistics, a calculation and a recording can come to wait for each other. -/
theorem not_allReturn_due {c : DifficultyAdjustmentManager} (hi : c.adjustmentInterval ≠ 0)
    {calls : List (ManagerCall R)} {i j u : Nat} {blockHeight now height timestamp : U64}
    {f : U64 → List DifficultyAdjustmentRecord → List BlockTimeRecord → R}
    (hib : calls[i]? = some (.getStats f))
    (hja : calls[j]? = some (.calculateNewDifficulty blockHeight now))
    (hud : calls[u]? = some (.recordBlockTime height timestamp)) :
    ¬AllReturn (start (due c).data (calls.map (·.prog (due c)))) := by
  obtain ⟨record, hrecord, -, -⟩ := calculateNewDifficulty_due hi blockHeight now
  -- The statistics hold the history for the block times, the calculation holds the block times
  -- for the history, and the recording queues up between them.
  have hcalculation := after_calculateNewDifficultyProg (R := R) hrecord
    [(.adjustmentHistory, .read)] (by simp)
  refine not_allReturn_of_queue (n := 4) (k := 5) ?_ (getElem?_progs hib (·.prog (due c)))
    (getElem?_progs hja (·.prog (due c))) rfl hcalculation
    ⟨_, List.mem_singleton.mpr rfl, rfl, by simp⟩ ?_ ?_ (getElem?_progs hud (·.prog (due c)))
    ⟨_, List.mem_singleton.mpr rfl, rfl, by simp⟩
  · rintro rfl
    cases hib.symm.trans hja
  · rintro rfl
    cases hib.symm.trans hud
  · rintro rfl
    cases hja.symm.trans hud

/-- Overlapping calls of a manager always return exactly if none of them calculates, none reads
the statistics or none records a block time. -/
theorem manager_allReturn_iff {initialDifficulty adjustmentInterval targetBlockTimeSecs
    minDifficulty maxDifficulty : U64} (hi : adjustmentInterval ≠ 0)
    (hlimit : adjustmentInterval.toNat + 1 < 2 ^ 64) (calls : List (ManagerCall R)) :
    (∀ es s, AdjustmentRun (new initialDifficulty adjustmentInterval targetBlockTimeSecs
        minDifficulty maxDifficulty) es s → AllReturn (start s.data (calls.map (·.prog s)))) ↔
      (∀ call ∈ calls, ¬call.Calculates) ∨ (∀ call ∈ calls, ¬call.ReadsStats) ∨
        ∀ call ∈ calls, ¬call.Records := by
  constructor
  · intro hall
    by_contra hno
    push Not at hno
    obtain ⟨⟨a, ha, hcalculates⟩, ⟨b, hb, hstats⟩, d, hd, hrecords⟩ := hno
    obtain ⟨i, hib⟩ := List.getElem?_of_mem hb
    obtain ⟨j, hja⟩ := List.getElem?_of_mem ha
    obtain ⟨u, hud⟩ := List.getElem?_of_mem hd
    cases a with
    | calculateNewDifficulty blockHeight now =>
      cases b with
      | getStats f =>
        cases d with
        | recordBlockTime height timestamp =>
          obtain ⟨es, hr⟩ := exists_run_due (c := new _ adjustmentInterval _ _ _) rfl hlimit
          exact not_allReturn_due hi hib hja hud (hall es _ hr)
        | _ => exact hrecords.elim
      | _ => exact hstats.elim
    | _ => exact hcalculates.elim
  · rintro (h | h | h) es s -
    · refine allReturn_of_ordered rankWithoutCalculations (fun p hp ↦ ?_) _
      obtain ⟨call, hc, rfl⟩ := List.mem_map.mp hp
      exact call.ordered_prog s (by decide) (fun _ ↦ by decide) (fun _ ↦ by decide)
        fun hcalculates ↦ absurd hcalculates (h call hc)
    · refine allReturn_of_ordered rankWithoutStats (fun p hp ↦ ?_) _
      obtain ⟨call, hc, rfl⟩ := List.mem_map.mp hp
      exact call.ordered_prog s (by decide) (fun _ ↦ by decide)
        (fun hstats ↦ absurd hstats (h call hc)) fun _ ↦ by decide
    · refine allReturn_of_ordered rankWithoutRecordings (fun p hp ↦ ?_) _
      obtain ⟨call, hc, rfl⟩ := List.mem_map.mp hp
      exact call.ordered_prog s (by decide) (fun hrecords ↦ absurd hrecords (h call hc))
        (fun _ ↦ by decide) fun _ ↦ by decide

/-- A recording, a calculation and a call for the statistics can wait for each other. -/
theorem manager_allReturn_iff_three : ¬∀ es s,
    AdjustmentRun (new 1000000 2016 600 100000 10000000) es s → AllReturn (start s.data
      (([.recordBlockTime 1 600, .calculateNewDifficulty 1 600, .getStats fun _ _ _ ↦ ()] :
        List (ManagerCall Unit)).map (·.prog s))) := by
  rw [manager_allReturn_iff (by decide) (by decide)]
  simp [ManagerCall.Calculates, ManagerCall.ReadsStats, ManagerCall.Records]

/-! ### Which calls keep the records linked -/

/-- Two calculations that adjust can both do so before either stores its record. -/
theorem exists_run_twice {s : DifficultyAdjustmentManager} {blockHeight now blockHeight' now' : U64}
    {record record' : DifficultyAdjustmentRecord}
    (h : s.calculateNewDifficulty blockHeight now =
      some (.ok record.newDifficulty, s.adjust record))
    (h' : s.calculateNewDifficulty blockHeight' now' =
      some (.ok record'.newDifficulty, s.adjust record'))
    {progs : List (ManagerProg R)} {i j : Nat} (hij : i ≠ j)
    (hi : progs[i]? = some (calculateNewDifficultyProg s blockHeight now))
    (hj : progs[j]? = some (calculateNewDifficultyProg s blockHeight' now')) :
    ∃ is x, Run Step (start s.data progs) is x ∧
      x.data .adjustmentHistory = s.adjustmentHistory ++ [record, record'] := by
  obtain ⟨is, z, hr, hzd, hzq, hzi, hzj, hzo⟩ := exists_run_two hij hi hj
    (after_calculateNewDifficultyProg h [] (by simp))
    (after_calculateNewDifficultyProg h' [(.blockTimes, .read)] (by simp))
  -- Both have read; the first one stores its record and gives back all its locks.
  have hothers (u : Nat) (hui : u ≠ i) (t : Task _ _ _) (ht : z.tasks[u]? = some t) :
      ∀ b ∈ t.held, b ∈ [((.blockTimes, .read) : ManagerLock × LockMode)] := by
    by_cases huj : u = j
    · subst huj
      cases hzj.symm.trans ht
      exact fun b hb ↦ hb
    · rw [hzo u hui huj, start, List.getElem?_map] at ht
      obtain ⟨p, -, rfl⟩ := Option.map_eq_some_iff.mp ht
      exact fun b hb ↦ absurd hb List.not_mem_nil
  obtain ⟨is₁, y, hr₁, hyd, hyq, hyi, hyo⟩ := exists_run_after [(.blockTimes, .read)] 8 hzi
    (fun l ↦ by rw [hzq]; rfl) fun u t hu ht ↦ hothers u hu t ht
  obtain ⟨is₂, x, hr₂, hxd, -⟩ := exists_run_after [(.blockTimes, .read)] 3
    ((hyo j (Ne.symm hij)).trans hzj) (fun l ↦ by rw [hyq, hzq]; rfl) fun u t hu ht ↦ by
      by_cases hui : u = i
      · subst hui
        cases hyi.symm.trans ht
        exact fun b hb ↦ absurd hb List.not_mem_nil
      · exact hothers u hui t ((hyo u hui).symm.trans ht)
  refine ⟨is ++ is₁ ++ is₂, x, (hr.trans hr₁).trans hr₂, ?_⟩
  rw [hxd, hyd, hzd]
  change s.adjustmentHistory ++ [record] ++ [record'] = _
  rw [List.append_assoc]
  rfl

/-- A period without blocks lowers a difficulty that is above the least one. -/
theorem finalDifficulty_lt {c : DifficultyAdjustmentManager} (hratio : c.maxAdjustmentRatio = 4)
    (hmin : c.minDifficulty < c.currentDifficulty) :
    c.finalDifficulty (c.clampedRatio 0 1) < c.currentDifficulty := by
  have hclamped : c.clampedRatio 0 1 = 1 / 4 := by
    have hzero : ((0 : U64).toNat : ℚ) / (1 : U64).toNat = 0 := by simp
    rw [clampedRatio, hzero, hratio]
    norm_num [Ratio.clamp]
  rw [BitVec.lt_def] at hmin
  have hfloor : ⌊(c.currentDifficulty.toNat : ℚ) * (1 / 4)⌋₊ < c.currentDifficulty.toNat := by
    have hpos : (0 : ℚ) < c.currentDifficulty.toNat := by
      exact_mod_cast (Nat.zero_le _).trans_lt hmin
    rw [Nat.floor_lt (by positivity)]
    linarith
  rw [BitVec.lt_def, finalDifficulty, hclamped, Word.toNat_smaller, Word.toNat_larger,
    Ratio.toNat_truncate]
  omega

/-- Two calculations of a due adjustment can leave records that are not linked. -/
theorem exists_run_not_linked {c : DifficultyAdjustmentManager} (hi : c.adjustmentInterval ≠ 0)
    (hratio : c.maxAdjustmentRatio = 4) (hmin : c.minDifficulty < c.currentDifficulty)
    {calls : List (ManagerCall R)} {i j : Nat} {blockHeight now blockHeight' now' : U64}
    (hij : i ≠ j) (hia : calls[i]? = some (.calculateNewDifficulty blockHeight now))
    (hjb : calls[j]? = some (.calculateNewDifficulty blockHeight' now')) :
    ∃ is x, Run Step (start (due c).data (calls.map (·.prog (due c)))) is x ∧
      ¬Linked (x.data .adjustmentHistory) := by
  obtain ⟨record, hrecord, -, hnew⟩ := calculateNewDifficulty_due hi blockHeight now
  obtain ⟨record', hrecord', hprevious, -⟩ := calculateNewDifficulty_due hi blockHeight' now'
  obtain ⟨is, x, hr, hhistory⟩ := exists_run_twice hrecord hrecord' hij
    (getElem?_progs hia (·.prog (due c))) (getElem?_progs hjb (·.prog (due c)))
  refine ⟨is, x, hr, fun hlinked ↦ ?_⟩
  rw [hhistory] at hlinked
  have hnext := (List.isChain_append.mp hlinked).2.1
  rw [List.isChain_pair, hprevious, hnew] at hnext
  exact absurd (finalDifficulty_lt hratio hmin) (hnext ▸ BitVec.lt_irrefl _)

/-- Overlapping calls of a manager, none of which sets the difficulty, always leave the records
linked exactly if no two of them calculate. -/
theorem manager_linked_iff {initialDifficulty adjustmentInterval targetBlockTimeSecs
    minDifficulty maxDifficulty : U64} (hi : adjustmentInterval ≠ 0)
    (hlimit : adjustmentInterval.toNat + 1 < 2 ^ 64) (hmin : minDifficulty < initialDifficulty)
    (hmax : initialDifficulty ≤ maxDifficulty) {calls : List (ManagerCall R)}
    (hset : ∀ call ∈ calls, ¬call.Sets) :
    (∀ es s, AdjustmentRun (new initialDifficulty adjustmentInterval targetBlockTimeSecs
        minDifficulty maxDifficulty) es s →
      ∀ is x, Run Step (start s.data (calls.map (·.prog s))) is x →
        Linked (x.data .adjustmentHistory)) ↔
      calls.Pairwise fun a b ↦ ¬(a.Calculates ∧ b.Calculates) := by
  constructor
  · intro hall
    refine List.pairwise_iff_getElem.mpr ?_
    rintro i j hilt hjlt hij ⟨ha, hb⟩
    have hia := List.getElem?_eq_getElem hilt
    have hjb := List.getElem?_eq_getElem hjlt
    generalize calls[i] = a at ha hia
    generalize calls[j] = b at hb hjb
    cases a with
    | calculateNewDifficulty blockHeight now =>
      cases b with
      | calculateNewDifficulty blockHeight' now' =>
        obtain ⟨es, hr⟩ := exists_run_due (c := new initialDifficulty adjustmentInterval
          targetBlockTimeSecs minDifficulty maxDifficulty) rfl hlimit
        obtain ⟨is, x, hx, hlinked⟩ := exists_run_not_linked (c := new initialDifficulty
          adjustmentInterval targetBlockTimeSecs minDifficulty maxDifficulty) hi rfl hmin hij.ne
          hia hjb
        exact hlinked (hall es _ hr is x hx)
      | _ => exact hb.elim
    | _ => exact ha.elim
  · intro hpair es s hrun is x hr
    have hbounded := historyBounded_of_run (BitVec.le_of_lt hmin) hmax hrun
    have hlinked : Linked s.adjustmentHistory := hbounded.linked
    have hlast : ∀ last ∈ s.adjustmentHistory.getLast?,
        s.currentDifficulty = last.newDifficulty := by
      intro last hmem
      rw [hbounded.last, hmem]
      rfl
    -- The calculation, if there is one, is the only call that writes what the records depend on.
    obtain ⟨i, hsole⟩ := exists_sole hpair
    refine holds_of_run (i := i) dependsOn_linked hlinked
      (fun p hp ↦ ?_) (fun j p hji hp ↦ ?_) hr
    · rw [List.getElem?_map] at hp
      obtain ⟨call, hcall, rfl⟩ := Option.map_eq_some_iff.mp hp
      exact call.keeps_prog (hset call (List.mem_of_getElem? hcall)) hlinked hlast
    · rw [List.getElem?_map] at hp
      obtain ⟨call, hcall, rfl⟩ := Option.map_eq_some_iff.mp hp
      exact call.spares_prog (hset call (List.mem_of_getElem? hcall))
        fun hcalculates ↦ hji (hsole j call hcall hcalculates)

/-- Two calculations can leave records that are not linked. -/
theorem manager_linked_iff_two : ¬∀ es s,
    AdjustmentRun (new 1000000 2016 600 100000 10000000) es s → ∀ is x,
      Run Step (start s.data (([.calculateNewDifficulty 2016 600, .recordBlockTime 2017 601,
        .calculateNewDifficulty 2017 601] : List (ManagerCall Unit)).map (·.prog s))) is x →
      Linked (x.data .adjustmentHistory) := by
  rw [manager_linked_iff (by decide) (by decide) (by decide) (by decide)
    (by simp [ManagerCall.Sets])]
  simp [ManagerCall.Calculates]

end SilverPow.Consensus
