import SilverPow.Consensus.Retarget
import SilverPow.Work.Validator

/-!
# The limit of an adjustment

The validator lets the difficulty change by at most a factor of four. The retargeting of a period
clamps its ratio to that, `src/difficulty.rs:90–129`. The adjustment from block times scales by
any ratio, `src/difficulty.rs:54–86`, and stays within the limit only where the average of the
times or the bounds of the configuration keep it there.
-/

namespace SilverPow.Consensus

open SilverPow.Base SilverPow.Work

/-! ### Periods -/

/-- A difficulty is followed by one that the validator lets through. -/
def Validated (currentDifficulty : U64) (next : Except PoWError U64) : Prop :=
  ∃ d, next = .ok d ∧
    BlockValidator.validateDifficultyAdjustment currentDifficulty d = .ok ()

/-- A clamped difficulty is within the limit unless it was scaled too far and the bound on that
side is too far away. -/
theorem validated_clamp_iff {config : PoWConfig} {currentDifficulty : U64}
    (hc : InRange config currentDifficulty) (d : U64) :
    Validated currentDifficulty
        (.ok (Word.smaller (Word.larger d config.minDifficulty) config.maxDifficulty)) ↔
      (config.maxDifficulty.toNat ≤ 4 * currentDifficulty.toNat ∨
        d.toNat ≤ 4 * currentDifficulty.toNat) ∧
      (currentDifficulty.toNat / 4 ≤ config.minDifficulty.toNat ∨
        currentDifficulty.toNat / 4 ≤ d.toNat) := by
  obtain ⟨hlo, hhi⟩ := hc
  rw [BitVec.le_def] at hlo hhi
  simp only [Validated, Except.ok.injEq, exists_eq_left',
    BlockValidator.validateDifficultyAdjustment_eq_ok_iff, Word.toNat_smaller,
    Word.toNat_larger]
  omega

/-- The validator lets every retargeting through. -/
theorem validated_adjustDifficulty {config : PoWConfig} {currentDifficulty : U64}
    (hc : InRange config currentDifficulty) (blocksInPeriod timeForPeriodMs : U64) :
    Validated currentDifficulty
      (adjustDifficultyKadenaStyle rationalScale config currentDifficulty blocksInPeriod
        timeForPeriodMs) := by
  have hsame : Validated currentDifficulty (.ok currentDifficulty) := by
    refine ⟨_, rfl, BlockValidator.validateDifficultyAdjustment_eq_ok_iff.mpr ?_⟩
    omega
  by_cases ht : timeForPeriodMs = 0
  · rw [ht, adjustDifficulty_of_no_time]
    exact hsame
  · by_cases hb : blocksInPeriod = 0
    · rw [adjustDifficultyKadenaStyle, if_pos hb]
      exact hsame
    · have hd := currentDifficulty.isLt
      rw [adjustDifficulty_of_time hb ht, validated_clamp_iff hc, toNat_rationalScale]
      omega

/-- A period of sixteen times the expected time quarters the difficulty. -/
theorem validated_adjustDifficulty_slow :
    Validated 1_000_000
      (adjustDifficultyKadenaStyle rationalScale .default 1_000_000 2016 967_680_000) :=
  validated_adjustDifficulty ⟨by decide, by decide⟩ _ _

/-! ### Block times -/

/-- `calculate_difficulty`, `src/difficulty.rs:54–86`, over the rationals and with a cast that
saturates. The length of a slice is a word. -/
def calculateDifficulty (config : PoWConfig) (currentDifficulty : U64)
    (actualBlockTimes : List U64) (_blockHeight : U64) : Except PoWError U64 :=
  if actualBlockTimes = [] then .ok currentDifficulty
  else
    let totalTime := actualBlockTimes.sum
    let avgBlockTime : U64 := BitVec.ofNat 64 (totalTime.toNat / actualBlockTimes.length)
    let targetTime := config.targetBlockTimeMs
    let adjustmentRatio := Ratio.Extended.of targetTime.toNat avgBlockTime.toNat
    let newDifficulty := (adjustmentRatio.scale currentDifficulty.toNat).cast 64
    .ok (Word.smaller (Word.larger newDifficulty config.minDifficulty) config.maxDifficulty)

/-- The average of some block times, rounded down. -/
def averageTime (blockTimes : List U64) : Nat :=
  (blockTimes.map BitVec.toNat).sum / blockTimes.length

/-- An average time for which the difficulty changes by at most a factor of four: it is not
scaled up by more or cannot be, and it is not scaled down by more or cannot be. -/
structure WithinLimit (config : PoWConfig) (currentDifficulty : U64) (average : Nat) : Prop where
  fourfold : config.maxDifficulty.toNat ≤ 4 * currentDifficulty.toNat ∨
    currentDifficulty.toNat * config.targetBlockTimeMs.toNat = 0 ∨
    currentDifficulty.toNat * config.targetBlockTimeMs.toNat <
      (4 * currentDifficulty.toNat + 1) * average
  quarter : currentDifficulty.toNat / 4 ≤ config.minDifficulty.toNat ∨
    config.targetBlockTimeMs ≠ 0 ∧ currentDifficulty.toNat / 4 * average ≤
      currentDifficulty.toNat * config.targetBlockTimeMs.toNat

/-- A scaled and cast difficulty, with the largest word where the average is zero. -/
def scaledBy (difficulty target average largest : Nat) : Nat :=
  if average = 0 then if difficulty = 0 ∨ target = 0 then 0 else largest
  else min (difficulty * target / average) largest

/-- The value of the scaled difficulty, where the times sum to a word. -/
theorem toNat_scaled {blockTimes : List U64} (hsum : (blockTimes.map BitVec.toNat).sum < 2 ^ 64)
    (currentDifficulty targetTime : U64) :
    (((Ratio.Extended.of targetTime.toNat (BitVec.ofNat 64
        (blockTimes.sum.toNat / blockTimes.length)).toNat).scale
          currentDifficulty.toNat).cast 64).toNat =
      scaledBy currentDifficulty.toNat targetTime.toNat (averageTime blockTimes)
        (2 ^ 64 - 1) := by
  have havg : (BitVec.ofNat 64 (blockTimes.sum.toNat / blockTimes.length)).toNat =
      averageTime blockTimes := by
    have hle : averageTime blockTimes ≤ (blockTimes.map BitVec.toNat).sum := Nat.div_le_self _ _
    rw [Word.toNat_sum_of_lt hsum, BitVec.toNat_ofNat, ← averageTime, Nat.mod_eq_of_lt]
    omega
  rw [havg, Ratio.Extended.toNat_cast_scale_of]
  rfl

section Scaled

variable {difficulty target average largest : Nat}

theorem scaledBy_le_iff : scaledBy difficulty target average largest ≤ 4 * difficulty ↔
    largest ≤ 4 * difficulty ∨ difficulty * target = 0 ∨
      difficulty * target < (4 * difficulty + 1) * average := by
  rw [Nat.mul_eq_zero]
  unfold scaledBy
  split
  · next ha =>
    subst ha
    split
    · next hz => exact iff_of_true (Nat.zero_le _) (.inr (.inl hz))
    · next hz => rw [or_iff_right hz, Nat.mul_zero, or_iff_left (Nat.not_lt_zero _)]
  · next ha =>
    have hpos : 0 < average := Nat.pos_of_ne_zero ha
    have hzero : difficulty = 0 ∨ target = 0 →
        difficulty * target < (4 * difficulty + 1) * average := by
      intro hz
      rw [Nat.mul_eq_zero.mpr hz]
      exact Nat.mul_pos (Nat.succ_pos _) hpos
    rw [or_iff_right_of_imp hzero, ← Nat.div_lt_iff_lt_mul hpos]
    omega

theorem le_scaledBy_iff (hd : difficulty ≤ largest) :
    difficulty / 4 ≤ scaledBy difficulty target average largest ↔
      difficulty < 4 ∨ target ≠ 0 ∧ difficulty / 4 * average ≤ difficulty * target := by
  unfold scaledBy
  split
  · next ha =>
    subst ha
    split
    · next hz => omega
    · next hz =>
      rw [not_or] at hz
      exact iff_of_true (by omega) (.inr ⟨hz.2, by omega⟩)
  · next ha =>
    have hpos : 0 < average := Nat.pos_of_ne_zero ha
    have hle : difficulty / 4 ≤ min (difficulty * target / average) largest ↔
        difficulty / 4 * average ≤ difficulty * target := by
      rw [← Nat.le_div_iff_mul_le hpos]
      omega
    rw [hle]
    by_cases ht : target = 0
    · have hq : difficulty / 4 * average = 0 ↔ difficulty < 4 := by
        rw [Nat.mul_eq_zero, or_iff_left ha]
        omega
      rw [ht, Nat.mul_zero, Nat.le_zero, hq]
      exact (or_iff_left fun h ↦ h.1 rfl).symm
    · rw [and_iff_right ht]
      refine (or_iff_right_of_imp fun hsmall ↦ ?_).symm
      rw [Nat.div_eq_of_lt hsmall, Nat.zero_mul]
      exact Nat.zero_le _

end Scaled

/-- The adjustment from block times is within the validator's limit exactly when the average of
the times is. -/
theorem validated_calculateDifficulty_iff {config : PoWConfig} {currentDifficulty : U64}
    (hc : InRange config currentDifficulty) {actualBlockTimes : List U64}
    (hne : actualBlockTimes ≠ [])
    (hsum : (actualBlockTimes.map BitVec.toNat).sum < 2 ^ 64) (blockHeight : U64) :
    Validated currentDifficulty
        (calculateDifficulty config currentDifficulty actualBlockTimes blockHeight) ↔
      WithinLimit config currentDifficulty (averageTime actualBlockTimes) := by
  have hd : currentDifficulty.toNat ≤ 2 ^ 64 - 1 := Nat.le_pred_of_lt currentDifficulty.isLt
  have hmax : config.maxDifficulty.toNat ≤ 2 ^ 64 - 1 :=
    Nat.le_pred_of_lt config.maxDifficulty.isLt
  have hzero : config.targetBlockTimeMs ≠ 0 ↔ config.targetBlockTimeMs.toNat ≠ 0 :=
    BitVec.toNat_ne
  unfold calculateDifficulty
  rw [if_neg hne]
  dsimp only
  rw [validated_clamp_iff hc, toNat_scaled hsum, scaledBy_le_iff, le_scaledBy_iff hd]
  constructor
  · rintro ⟨hfourfold, hquarter⟩
    refine ⟨?_, ?_⟩
    · omega
    · rw [hzero]
      omega
  · rintro ⟨hfourfold, hquarter⟩
    rw [hzero] at hquarter
    exact ⟨by omega, by omega⟩

/-- Blocks at four times the speed are within the limit. -/
theorem validated_calculateDifficulty_iff_fast :
    Validated 1_000_000 (calculateDifficulty .default 1_000_000 [7_000, 8_000] 2) ↔
      WithinLimit .default 1_000_000 (averageTime [7_000, 8_000]) :=
  validated_calculateDifficulty_iff ⟨by decide, by decide⟩ (by decide) (by decide) 2

/-- A block after one millisecond scales the difficulty by 30,000, which the validator does not
let through. -/
theorem not_validated_one_millisecond :
    InRange .default 1_000_000 ∧
      calculateDifficulty .default 1_000_000 [1] 1 = .ok 30_000_000_000 ∧
      BlockValidator.validateDifficultyAdjustment 1_000_000 30_000_000_000 =
        .error (.invalidBlock "Difficulty increase too large: 1000000 -> 30000000000") := by
  refine ⟨⟨by decide, by decide⟩, ?_, by decide⟩
  decide +kernel

end SilverPow.Consensus
