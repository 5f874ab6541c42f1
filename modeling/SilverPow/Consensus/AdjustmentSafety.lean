import SilverPow.Consensus.Adjustment

/-!
# When a calculation of the difficulty aborts

`calculate_new_difficulty`, `src/difficulty_adjustment.rs:127–204`, subtracts the first timestamp
of its window from the last one, and `record_block_time` takes timestamps in any order. With
heights that follow one another nothing else leaves its range.
-/

namespace SilverPow.Consensus

open SilverPow.Base

/-- Heights that follow one another, and heights and timestamps below `2 ^ 50`. -/
structure ConsecutiveTimes (times : List BlockTimeRecord) : Prop where
  consecutive : times.IsChain fun a b ↦ b.height.toNat = a.height.toNat + 1
  height_lt : ∀ time ∈ times, time.height.toNat < 2 ^ 50
  timestamp_lt : ∀ time ∈ times, time.timestamp.toNat < 2 ^ 50

/-- The times end no earlier than they start; those between may be in any order. -/
def EndsNoEarlier (times : List BlockTimeRecord) : Prop :=
  ∀ first ∈ times.head?, ∀ last ∈ times.getLast?, first.timestamp ≤ last.timestamp

namespace ConsecutiveTimes

variable {times : List BlockTimeRecord}

/-- The last of the times have the same properties. -/
theorem rtake (h : ConsecutiveTimes times) (n : Nat) : ConsecutiveTimes (times.rtake n) where
  consecutive := h.consecutive.drop _
  height_lt time hmem := h.height_lt time (List.mem_of_mem_drop hmem)
  timestamp_lt time hmem := h.timestamp_lt time (List.mem_of_mem_drop hmem)

/-- The heights of a period count its blocks. -/
theorem height_last (h : times.IsChain fun a b ↦ b.height.toNat = a.height.toNat + 1)
    {first last : BlockTimeRecord} (hfirst : first ∈ times.head?) (hlast : last ∈ times.getLast?) :
    last.height.toNat + 1 = first.height.toNat + times.length := by
  induction times generalizing first with
  | nil => cases hfirst
  | cons time times ih =>
    cases hfirst
    cases times with
    | nil =>
      cases hlast
      rfl
    | cons next times =>
      obtain ⟨hnext, hrest⟩ := List.isChain_cons_cons.mp h
      rw [List.getLast?_cons_cons] at hlast
      have hcount := ih hrest rfl hlast
      rw [List.length_cons]
      omega

end ConsecutiveTimes

namespace DifficultyAdjustmentManager

variable {s s' s₀ : DifficultyAdjustmentManager} {es : List AdjustmentEvent}

/-! ### The window of a run -/

/-- The window of a state holds the last times that were recorded, as many as the interval of
the start and one. -/
structure WindowOf (s₀ : DifficultyAdjustmentManager) (es : List AdjustmentEvent)
    (s : DifficultyAdjustmentManager) : Prop where
  interval : s.adjustmentInterval = s₀.adjustmentInterval
  target : s.targetBlockTimeSecs = s₀.targetBlockTimeSecs
  blockTimes : s.blockTimes =
    (es.filterMap AdjustmentEvent.recorded).rtake (s₀.adjustmentInterval.toNat + 1)

/-- Every call keeps the window. -/
theorem WindowOf.perform (h : WindowOf s₀ es s) {e : AdjustmentEvent}
    (hs : s.perform e = some s') : WindowOf s₀ (es ++ [e]) s' := by
  cases e with
  | recordBlockTime height timestamp =>
    obtain ⟨hs', htimes⟩ := recordBlockTime_eq hs
    rw [h.interval, h.blockTimes, Log.rtake_rtake_concat] at htimes
    rw [hs']
    refine ⟨h.interval, h.target, ?_⟩
    rw [List.filterMap_append]
    exact htimes
  | calculateNewDifficulty blockHeight now =>
    obtain ⟨⟨result, t⟩, hcalculate, rfl⟩ := Option.map_eq_some_iff.mp hs
    have htimes := h.blockTimes
    rw [← filterMap_recorded_calculate blockHeight now] at htimes
    obtain ⟨-, rfl⟩ | ⟨record, -, -, rfl⟩ | ⟨-, -, rfl⟩ := calculateNewDifficulty_cases hcalculate
    · exact ⟨h.interval, h.target, htimes⟩
    · exact ⟨h.interval, h.target, htimes⟩
    · exact ⟨h.interval, h.target, htimes⟩

theorem windowOf_run (hstart : s₀.blockTimes = []) (h : AdjustmentRun s₀ es s) :
    WindowOf s₀ es s :=
  h.historyInvariant (WindowOf s₀) ⟨rfl, rfl, by simp [hstart]⟩ fun _ _ _ _ hi hs ↦ hi.perform hs

/-! ### One calculation -/

/-- A calculation that does not abort returns a difficulty, not an error. -/
theorem calculateNewDifficulty_eq_ok (hinterval : 0 < s.adjustmentInterval.toNat)
    {blockHeight now : U64} (h : (s.calculateNewDifficulty blockHeight now).isSome) :
    ∃ difficulty s', s.calculateNewDifficulty blockHeight now = some (.ok difficulty, s') := by
  obtain ⟨⟨result, s'⟩, hresult⟩ := Option.isSome_iff_exists.mp h
  obtain ⟨rfl, -⟩ | ⟨record, -, rfl, -⟩ | ⟨hzero, -, -⟩ := calculateNewDifficulty_cases hresult
  · exact ⟨_, s', hresult⟩
  · exact ⟨_, s', hresult⟩
  · exact absurd hzero hinterval.ne'

/-- A window that ends before it starts aborts the calculation. -/
theorem calculateNewDifficulty_eq_none (hlen : s.adjustmentInterval.toNat ≤ s.blockTimes.length)
    {first last : BlockTimeRecord} (hfirst : first ∈ s.blockTimes.head?)
    (hlast : last ∈ s.blockTimes.getLast?) (hlt : last.timestamp < first.timestamp)
    (blockHeight now : U64) : s.calculateNewDifficulty blockHeight now = none := by
  have htime : Word.checkedSub last.timestamp first.timestamp = none :=
    if_neg (Nat.not_le.mpr (BitVec.lt_def.mp hlt))
  rw [Option.mem_def] at hfirst hlast
  rw [calculateNewDifficulty, if_neg (Nat.not_lt.mpr hlen), hfirst, hlast]
  simp only [htime, Option.bind_eq_bind, Option.bind_none, Option.bind_fun_none]

/-- A period of consecutive blocks within the interval has its products in range. -/
theorem productsInRange (hproduct :
      s.targetBlockTimeSecs.toNat * (s.adjustmentInterval.toNat + 1) * 1000 < 2 ^ 50)
    (hlen : s.blockTimes.length ≤ s.adjustmentInterval.toNat + 1)
    (htimes : ConsecutiveTimes s.blockTimes) {first last : BlockTimeRecord}
    (hfirst : first ∈ s.blockTimes.head?) (hlast : last ∈ s.blockTimes.getLast?) :
    s.ProductsInRange first last := by
  have hcount := ConsecutiveTimes.height_last htimes.consecutive hfirst hlast
  have hend := htimes.timestamp_lt last (List.mem_of_getLast? hlast)
  constructor
  · clear hproduct
    omega
  · have hblocks : last.height.toNat - first.height.toNat ≤ s.adjustmentInterval.toNat + 1 := by
      omega
    have hmul := Nat.mul_le_mul_left s.targetBlockTimeSecs.toNat hblocks
    rw [Nat.mul_comm (last.height.toNat - first.height.toNat)]
    exact (Nat.mul_le_mul_right 1000 hmul).trans_lt (hproduct.trans (by decide))

/-- With consecutive blocks, a calculation returns a difficulty exactly when there are fewer
times than the interval or the window ends no earlier than it starts. -/
theorem calculateNewDifficulty_ok_iff_window (hinterval : 0 < s.adjustmentInterval.toNat)
    (hproduct : s.targetBlockTimeSecs.toNat * (s.adjustmentInterval.toNat + 1) * 1000 < 2 ^ 50)
    (hlen : s.blockTimes.length ≤ s.adjustmentInterval.toNat + 1)
    (htimes : ConsecutiveTimes s.blockTimes) (blockHeight now : U64) :
    (∃ difficulty s', s.calculateNewDifficulty blockHeight now = some (.ok difficulty, s')) ↔
      s.blockTimes.length < s.adjustmentInterval.toNat ∨ EndsNoEarlier s.blockTimes := by
  constructor
  · rintro ⟨difficulty, s', hok⟩
    by_contra hnot
    obtain ⟨hge, hearlier⟩ := not_or.mp hnot
    simp only [EndsNoEarlier, not_forall] at hearlier
    obtain ⟨first, hfirst, last, hlast, hnle⟩ := hearlier
    rw [calculateNewDifficulty_eq_none (Nat.le_of_not_lt hge) hfirst hlast
      (BitVec.not_le.mp hnle)] at hok
    cases hok
  · rintro (hfew | hends)
    · exact ⟨s.currentDifficulty, s, if_pos hfew⟩
    · refine calculateNewDifficulty_eq_ok hinterval (calculateNewDifficulty_isSome _ _ ?_)
      intro first hfirst last hlast
      have hcount := ConsecutiveTimes.height_last htimes.consecutive hfirst hlast
      have hpos := List.length_pos_of_mem (List.mem_of_getLast? hlast)
      refine ⟨?_, hends first hfirst last hlast,
        productsInRange hproduct hlen htimes hfirst hlast⟩
      rw [BitVec.le_def]
      omega

/-! ### Every run -/

section Runs

variable (initialDifficulty adjustmentInterval targetBlockTimeSecs minDifficulty
  maxDifficulty : U64)

/-- In every run that records consecutive blocks, a calculation returns a difficulty exactly when
fewer times than the interval are recorded or the last of them end no earlier than they start. -/
theorem calculateNewDifficulty_ok_iff (hinterval : adjustmentInterval ≠ 0)
    (hproduct : targetBlockTimeSecs.toNat * (adjustmentInterval.toNat + 1) * 1000 < 2 ^ 50)
    (h : AdjustmentRun (new initialDifficulty adjustmentInterval targetBlockTimeSecs minDifficulty
      maxDifficulty) es s)
    (htimes : ConsecutiveTimes (es.filterMap AdjustmentEvent.recorded)) (blockHeight now : U64) :
    (∃ difficulty s', s.calculateNewDifficulty blockHeight now = some (.ok difficulty, s')) ↔
      (es.filterMap AdjustmentEvent.recorded).length < adjustmentInterval.toNat ∨
        EndsNoEarlier
          ((es.filterMap AdjustmentEvent.recorded).rtake (adjustmentInterval.toNat + 1)) := by
  obtain ⟨hsame, htarget, hwindow⟩ := windowOf_run rfl h
  change s.adjustmentInterval = adjustmentInterval at hsame
  change s.targetBlockTimeSecs = targetBlockTimeSecs at htarget
  change s.blockTimes =
    (es.filterMap AdjustmentEvent.recorded).rtake (adjustmentInterval.toNat + 1) at hwindow
  have hlength : s.blockTimes.length =
      min (es.filterMap AdjustmentEvent.recorded).length (adjustmentInterval.toNat + 1) := by
    rw [hwindow, List.rtake, List.length_drop]
    omega
  have hwindowTimes : ConsecutiveTimes s.blockTimes := by
    rw [hwindow]
    exact htimes.rtake _
  have hfew : s.blockTimes.length < adjustmentInterval.toNat ↔
      (es.filterMap AdjustmentEvent.recorded).length < adjustmentInterval.toNat := by
    rw [hlength]
    omega
  have hpos : 0 < s.adjustmentInterval.toNat := by
    rw [hsame]
    exact Nat.pos_of_ne_zero fun hzero ↦ hinterval (BitVec.eq_of_toNat_eq hzero)
  have hone := calculateNewDifficulty_ok_iff_window hpos (by rwa [hsame, htarget])
    (by rw [hsame, hlength]; exact Nat.min_le_right _ _) hwindowTimes blockHeight now
  rw [hone, hsame, hfew, hwindow]

end Runs

/-- Two blocks, the first at 1000 seconds. -/
def twoBlocks (timestamp : U64) : List AdjustmentEvent :=
  [.recordBlockTime 1 1000, .recordBlockTime 2 timestamp]

/-- A manager of interval one that has recorded them. -/
def twoBlocksManager (timestamp : U64) : DifficultyAdjustmentManager :=
  { new 1000 1 600 100 10_000 with blockTimes := [⟨1, 1000⟩, ⟨2, timestamp⟩] }

theorem run_twoBlocks (timestamp : U64) :
    AdjustmentRun (new 1000 1 600 100 10_000) (twoBlocks timestamp)
      (twoBlocksManager timestamp) := by
  have hfirst : (new 1000 1 600 100 10_000).perform (.recordBlockTime 1 1000) =
      some { new 1000 1 600 100 10_000 with blockTimes := [⟨1, 1000⟩] } := rfl
  have hsecond : DifficultyAdjustmentManager.perform
      { new 1000 1 600 100 10_000 with blockTimes := [⟨1, 1000⟩] }
      (.recordBlockTime 2 timestamp) = some (twoBlocksManager timestamp) := rfl
  exact .snoc (.snoc .nil hfirst) hsecond

theorem consecutiveTimes_twoBlocks {timestamp : U64} (h : timestamp.toNat < 2 ^ 50) :
    ConsecutiveTimes ((twoBlocks timestamp).filterMap AdjustmentEvent.recorded) where
  consecutive := List.isChain_pair.mpr rfl
  height_lt := by simp [twoBlocks, AdjustmentEvent.recorded]
  timestamp_lt := by simpa [twoBlocks, AdjustmentEvent.recorded] using h

/-- The second block is 300 seconds after the first. -/
theorem calculateNewDifficulty_ok_iff_two_blocks :
    ∃ difficulty s',
      (twoBlocksManager 1300).calculateNewDifficulty 2 1300 = some (.ok difficulty, s') :=
  (calculateNewDifficulty_ok_iff 1000 1 600 100 10_000 (by decide) (by decide)
    (run_twoBlocks 1300) (consecutiveTimes_twoBlocks (by decide)) 2 1300).mpr
    (.inr fun first hfirst last hlast ↦ by
      cases hfirst
      cases hlast
      decide)

/-- The second block is 100 seconds before the first, and the calculation aborts. -/
theorem calculation_aborts_two_blocks :
    (600 : U64).toNat * ((1 : U64).toNat + 1) * 1000 < 2 ^ 50 ∧
      AdjustmentRun (new 1000 1 600 100 10_000) (twoBlocks 900) (twoBlocksManager 900) ∧
      ConsecutiveTimes ((twoBlocks 900).filterMap AdjustmentEvent.recorded) ∧
      ¬∃ difficulty s',
        (twoBlocksManager 900).calculateNewDifficulty 2 900 = some (.ok difficulty, s') := by
  have hnone : (twoBlocksManager 900).calculateNewDifficulty 2 900 = none := by decide +kernel
  refine ⟨by decide, run_twoBlocks 900, consecutiveTimes_twoBlocks (by decide), ?_⟩
  rw [hnone]
  rintro ⟨difficulty, s', hok⟩
  cases hok

end DifficultyAdjustmentManager
end SilverPow.Consensus
