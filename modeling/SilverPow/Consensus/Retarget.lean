import SilverPow.Base.Ratio
import SilverPow.Consensus.Difficulty

/-!
# Fast and slow periods

`src/difficulty.rs:90–129` over the rationals: the less time a period took, the higher is the
difficulty that follows. The periods that took no time at all are the exception. They return
early with the current difficulty, although slower periods can raise it.
-/

namespace SilverPow.Consensus

open SilverPow.Base PoWConsensus

/-- The ratio of expected and taken time, cut to between a quarter and four,
`src/difficulty.rs:109–114`. -/
def clampedRatio (expectedTimeMs timeForPeriodMs : U64) : ℚ :=
  let adjustmentRatio : ℚ := expectedTimeMs.toNat / timeForPeriodMs.toNat
  let maxAdjustment := 4
  let minAdjustment := 1 / 4
  min (max adjustmentRatio minAdjustment) maxAdjustment

/-- `(current_difficulty as f64 * clamped_ratio) as u64`, `src/difficulty.rs:116`, over the
rationals and with a cast that saturates. -/
def rationalScale : ScaleDifficulty := fun currentDifficulty expectedTimeMs timeForPeriodMs ↦
  Ratio.truncate 64 (currentDifficulty.toNat * clampedRatio expectedTimeMs timeForPeriodMs)

/-- Both periods are retargeted, and the first leads to no lower difficulty than the second. -/
def FasterNotLower (config : PoWConfig) (currentDifficulty blocksInPeriod fast slow : U64) :
    Prop :=
  ∃ d d', adjustDifficultyKadenaStyle rationalScale config currentDifficulty blocksInPeriod
      fast = .ok d ∧
    adjustDifficultyKadenaStyle rationalScale config currentDifficulty blocksInPeriod
      slow = .ok d' ∧ d' ≤ d

/-! ### The scaled difficulty -/

/-- The value of the scaled difficulty is a natural division, cut and capped. -/
theorem toNat_rationalScale (currentDifficulty expectedTimeMs timeForPeriodMs : U64) :
    (rationalScale currentDifficulty expectedTimeMs timeForPeriodMs).toNat =
      min (max (currentDifficulty.toNat * expectedTimeMs.toNat / timeForPeriodMs.toNat)
        (currentDifficulty.toNat / 4)) (min (4 * currentDifficulty.toNat) (2 ^ 64 - 1)) := by
  have hc : (0 : ℚ) ≤ currentDifficulty.toNat := Nat.cast_nonneg _
  have hq : (currentDifficulty.toNat : ℚ) * clampedRatio expectedTimeMs timeForPeriodMs =
      min (max (((currentDifficulty.toNat * expectedTimeMs.toNat : ℕ) : ℚ) /
          (timeForPeriodMs.toNat : ℚ)) ((currentDifficulty.toNat : ℚ) / (4 : ℕ)))
        ((4 * currentDifficulty.toNat : ℕ) : ℚ) := by
    rw [clampedRatio, mul_min_of_nonneg _ _ hc, mul_max_of_nonneg _ _ hc, mul_one_div,
      ← mul_div_assoc, mul_comm 4 currentDifficulty.toNat]
    push_cast
    rfl
  rw [rationalScale, Ratio.toNat_truncate, hq, Nat.floor_mono.map_min, Nat.floor_mono.map_max,
    Nat.floor_div_eq_div, Nat.floor_div_eq_div, Nat.floor_natCast, min_assoc]

/-- Over the rationals, the difficulty is scaled as in exact arithmetic. -/
theorem rationalScale_eq_exactScale : rationalScale = exactScale := by
  funext currentDifficulty expectedTimeMs timeForPeriodMs
  apply BitVec.eq_of_toNat_eq
  rw [toNat_rationalScale, exactScale, BitVec.toNat_ofNat, Nat.mod_eq_of_lt]
  omega

/-- More time scales to no higher difficulty. -/
theorem rationalScale_anti (currentDifficulty expectedTimeMs : U64) {fast slow : U64}
    (hfast : fast ≠ 0) (hle : fast ≤ slow) :
    (rationalScale currentDifficulty expectedTimeMs slow).toNat ≤
      (rationalScale currentDifficulty expectedTimeMs fast).toNat := by
  have hdiv : currentDifficulty.toNat * expectedTimeMs.toNat / slow.toNat ≤
      currentDifficulty.toNat * expectedTimeMs.toNat / fast.toNat :=
    Nat.div_le_div_left (BitVec.le_def.mp hle) (BitVec.toNat_pos_of_ne_zero hfast)
  rw [toNat_rationalScale, toNat_rationalScale]
  omega

/-- The difficulty is scaled up unless the ratio is less than one more unit of it. -/
theorem rationalScale_le_iff {currentDifficulty expectedTimeMs timeForPeriodMs : U64}
    (ht : timeForPeriodMs ≠ 0) :
    (rationalScale currentDifficulty expectedTimeMs timeForPeriodMs).toNat ≤
        currentDifficulty.toNat ↔
      currentDifficulty.toNat = 2 ^ 64 - 1 ∨
        currentDifficulty.toNat * expectedTimeMs.toNat <
          (currentDifficulty.toNat + 1) * timeForPeriodMs.toNat := by
  have hc := currentDifficulty.isLt
  rw [toNat_rationalScale, ← Nat.div_lt_iff_lt_mul (BitVec.toNat_pos_of_ne_zero ht)]
  rcases Nat.eq_zero_or_pos currentDifficulty.toNat with hz | hz
  · rw [hz, Nat.zero_mul, Nat.zero_div]
    omega
  · omega

/-! ### The retargeting -/

/-- A period that took no time leaves the difficulty as it is. -/
theorem adjustDifficulty_of_no_time (scale : ScaleDifficulty) (config : PoWConfig)
    (currentDifficulty blocksInPeriod : U64) :
    adjustDifficultyKadenaStyle scale config currentDifficulty blocksInPeriod 0 =
      .ok currentDifficulty := by
  unfold adjustDifficultyKadenaStyle
  split
  · rfl
  · exact if_pos rfl

theorem adjustDifficulty_of_time {scale : ScaleDifficulty} {config : PoWConfig}
    {currentDifficulty blocksInPeriod timeForPeriodMs : U64} (hb : blocksInPeriod ≠ 0)
    (ht : timeForPeriodMs ≠ 0) :
    adjustDifficultyKadenaStyle scale config currentDifficulty blocksInPeriod timeForPeriodMs =
      .ok (Word.smaller (Word.larger (scale currentDifficulty
        (blocksInPeriod * config.targetBlockTimeMs) timeForPeriodMs) config.minDifficulty)
          config.maxDifficulty) := by
  unfold adjustDifficultyKadenaStyle
  rw [if_neg hb]
  exact if_neg ht

/-- All blocks of a period in the second in which it started leave the difficulty as it is. -/
theorem retarget_of_same_second {scale : ScaleDifficulty} {config : PoWConfig}
    {state state' : ChainState} {now : U64} (hnow : now = state.periodStartTime)
    (hr : state.retarget scale config now = .ok state') :
    state'.currentDifficulty = state.currentDifficulty := by
  subst hnow
  unfold ChainState.retarget at hr
  dsimp only at hr
  rw [BitVec.sub_self, BitVec.zero_mul, show (0#64 : U64) = 0 from rfl,
    adjustDifficulty_of_no_time] at hr
  split at hr
  · cases hr
    rfl
  · cases hr
    rfl

/-- Clamping a larger difficulty yields no smaller one. -/
theorem clampDifficulty_mono (config : PoWConfig) {d d' : U64} (h : d.toNat ≤ d'.toNat) :
    Word.smaller (Word.larger d config.minDifficulty) config.maxDifficulty ≤
      Word.smaller (Word.larger d' config.minDifficulty) config.maxDifficulty := by
  rw [BitVec.le_def, Word.toNat_smaller, Word.toNat_smaller, Word.toNat_larger,
    Word.toNat_larger]
  omega

/-- A clamped difficulty stays up to one in range where the difficulty does. -/
theorem clampDifficulty_le_iff {config : PoWConfig} {current : U64} (hc : InRange config current)
    (d : U64) :
    Word.smaller (Word.larger d config.minDifficulty) config.maxDifficulty ≤ current ↔
      current = config.maxDifficulty ∨ d.toNat ≤ current.toNat := by
  obtain ⟨hlo, hhi⟩ := hc
  rw [BitVec.le_def] at hlo hhi
  rw [BitVec.le_def, Word.toNat_smaller, Word.toNat_larger, ← BitVec.toNat_inj]
  omega

/-- Among the periods that took time, a faster one leads to no lower difficulty. -/
theorem fasterNotLower_of_time (config : PoWConfig) (currentDifficulty : U64)
    {blocksInPeriod fast slow : U64} (hb : blocksInPeriod ≠ 0) (hfast : fast ≠ 0)
    (hle : fast ≤ slow) : FasterNotLower config currentDifficulty blocksInPeriod fast slow := by
  have hslow : slow ≠ 0 := by
    rintro rfl
    exact hfast (BitVec.le_zero_iff.mp hle)
  exact ⟨_, _, adjustDifficulty_of_time hb hfast, adjustDifficulty_of_time hb hslow,
    clampDifficulty_mono config (rationalScale_anti _ _ hfast hle)⟩

/-- A period without time leads to no lower difficulty than one with time unless that one
raises the difficulty. -/
theorem fasterNotLower_no_time_iff {config : PoWConfig}
    {currentDifficulty blocksInPeriod slow : U64} (hc : InRange config currentDifficulty)
    (hb : blocksInPeriod ≠ 0)
    (hfit : blocksInPeriod.toNat * config.targetBlockTimeMs.toNat < 2 ^ 64) (hslow : slow ≠ 0) :
    FasterNotLower config currentDifficulty blocksInPeriod 0 slow ↔
      currentDifficulty = config.maxDifficulty ∨
        currentDifficulty.toNat * (blocksInPeriod.toNat * config.targetBlockTimeMs.toNat) <
          (currentDifficulty.toNat + 1) * slow.toNat := by
  have hexpected : (blocksInPeriod * config.targetBlockTimeMs).toNat =
      blocksInPeriod.toNat * config.targetBlockTimeMs.toNat := by
    rw [BitVec.toNat_mul, Nat.mod_eq_of_lt hfit]
  have hiff : FasterNotLower config currentDifficulty blocksInPeriod 0 slow ↔
      Word.smaller (Word.larger (rationalScale currentDifficulty
        (blocksInPeriod * config.targetBlockTimeMs) slow) config.minDifficulty)
          config.maxDifficulty ≤ currentDifficulty := by
    rw [FasterNotLower, adjustDifficulty_of_no_time, adjustDifficulty_of_time hb hslow]
    constructor
    · rintro ⟨d, d', ⟨⟩, ⟨⟩, hle⟩
      exact hle
    · exact fun hle ↦ ⟨_, _, rfl, rfl, hle⟩
  -- the largest word is in range only as the maximum
  have hmax : currentDifficulty.toNat = 2 ^ 64 - 1 → currentDifficulty = config.maxDifficulty := by
    intro hword
    apply BitVec.eq_of_toNat_eq
    have hhi := BitVec.le_def.mp hc.2
    have := config.maxDifficulty.isLt
    omega
  rw [hiff, clampDifficulty_le_iff hc, rationalScale_le_iff hslow, hexpected, ← or_assoc,
    or_iff_left_of_imp hmax]

/-- A faster period leads to no lower difficulty than a slower one exactly when it took some
time, or both took none, or the slower one does not raise the difficulty: it is at its maximum
or not scaled up by a whole unit. -/
theorem fasterNotLower_iff {config : PoWConfig}
    {currentDifficulty blocksInPeriod fast slow : U64} (hc : InRange config currentDifficulty)
    (hb : blocksInPeriod ≠ 0)
    (hfit : blocksInPeriod.toNat * config.targetBlockTimeMs.toNat < 2 ^ 64)
    (hle : fast ≤ slow) :
    FasterNotLower config currentDifficulty blocksInPeriod fast slow ↔
      fast ≠ 0 ∨ slow = 0 ∨ currentDifficulty = config.maxDifficulty ∨
        currentDifficulty.toNat * (blocksInPeriod.toNat * config.targetBlockTimeMs.toNat) <
          (currentDifficulty.toNat + 1) * slow.toNat := by
  by_cases hfast : fast = 0
  · subst hfast
    rw [or_iff_right (not_not_intro rfl)]
    by_cases hslow : slow = 0
    · subst hslow
      exact iff_of_true ⟨_, _, adjustDifficulty_of_no_time _ _ _ _,
        adjustDifficulty_of_no_time _ _ _ _, BitVec.le_refl _⟩ (.inl rfl)
    · rw [or_iff_right hslow, fasterNotLower_no_time_iff hc hb hfit hslow]
  · exact iff_of_true (fasterNotLower_of_time config currentDifficulty hb hfast hle) (.inl hfast)

/-- Two periods of the default length, one in no time and one in half the expected time. -/
theorem fasterNotLower_iff_half_time :
    FasterNotLower .default 1_000_000 2016 0 30_240_000 ↔
      (0 : U64) ≠ 0 ∨ (30_240_000 : U64) = 0 ∨ (1_000_000 : U64) = PoWConfig.default.maxDifficulty ∨
        (1_000_000 : U64).toNat *
            ((2016 : U64).toNat * PoWConfig.default.targetBlockTimeMs.toNat) <
          ((1_000_000 : U64).toNat + 1) * (30_240_000 : U64).toNat :=
  fasterNotLower_iff ⟨by decide, by decide⟩ (by decide) (by decide) (by decide)

/-- Blocks at twice the speed double the difficulty, and blocks in no time do not raise it. -/
theorem no_time_below_half_time :
    adjustDifficultyKadenaStyle rationalScale .default 1_000_000 2016 0 = .ok 1_000_000 ∧
      adjustDifficultyKadenaStyle rationalScale .default 1_000_000 2016 30_240_000 =
        .ok 2_000_000 ∧
      ¬ FasterNotLower .default 1_000_000 2016 0 30_240_000 := by
  have hslow : adjustDifficultyKadenaStyle rationalScale .default 1_000_000 2016 30_240_000 =
      .ok 2_000_000 := by
    rw [rationalScale_eq_exactScale]
    decide
  refine ⟨adjustDifficulty_of_no_time _ _ _ _, hslow, ?_⟩
  rintro ⟨d, d', hd, hd', hle⟩
  rw [adjustDifficulty_of_no_time] at hd
  rw [hslow] at hd'
  cases hd
  cases hd'
  exact absurd hle (by decide)

end SilverPow.Consensus
