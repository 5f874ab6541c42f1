import SilverPow.Config

/-!
# The difficulty by halvings

`src/difficulty.rs:137–143`: the difficulty doubles with each halving of the reward, up to the
largest word. The number of halvings is cast to a narrower word before it becomes the exponent,
so the difficulty starts again from the base after 2³² halvings.
-/

namespace SilverPow.Consensus

open SilverPow.Base

/-- `get_difficulty_with_halving`, `src/difficulty.rs:137–143`. A zero interval aborts the
division. -/
def getDifficultyWithHalving (config : PoWConfig) (baseDifficulty blockHeight : U64) :
    Option U64 := do
  let halvings ← Word.checkedDiv blockHeight config.halvingInterval
  return Word.saturatingMul baseDifficulty
    (Word.saturatingPow 2 (halvings.setWidth 32).toNat)

/-- The exponent of two at a height, a word of 32 bits. -/
def doublings (config : PoWConfig) (blockHeight : U64) : Nat :=
  blockHeight.toNat / config.halvingInterval.toNat % 2 ^ 32

/-- The difficulty at the first height is at most that at the second. -/
def NoHigher (config : PoWConfig) (baseDifficulty height height' : U64) : Prop :=
  ∃ d d', getDifficultyWithHalving config baseDifficulty height = some d ∧
    getDifficultyWithHalving config baseDifficulty height' = some d' ∧ d ≤ d'

/-- A cap on a factor makes no difference to a product with the same cap. -/
theorem min_mul_min (a b cap : Nat) : min (a * min b cap) cap = min (a * b) cap := by
  rcases Nat.le_total b cap with h | h
  · rw [Nat.min_eq_left h]
  · rw [Nat.min_eq_right h]
    rcases Nat.eq_zero_or_pos a with ha | ha
    · rw [ha, Nat.zero_mul, Nat.zero_mul]
    · have hcap : cap ≤ a * cap := Nat.le_mul_of_pos_left cap ha
      rw [Nat.min_eq_right hcap, Nat.min_eq_right (hcap.trans (Nat.mul_le_mul_left a h))]

/-- Capped multiples of powers of two are in the order of their exponents up to the cap. -/
theorem min_mul_two_pow_le_iff (a cap m n : Nat) :
    min (a * 2 ^ m) cap ≤ min (a * 2 ^ n) cap ↔ a = 0 ∨ m ≤ n ∨ cap ≤ a * 2 ^ n := by
  constructor
  · intro hle
    by_contra hn
    obtain ⟨ha, hn⟩ := not_or.mp hn
    obtain ⟨hlt, hcap⟩ := not_or.mp hn
    have hpow : a * 2 ^ n < a * 2 ^ m :=
      Nat.mul_lt_mul_of_pos_left (Nat.pow_lt_pow_right (by decide) (Nat.lt_of_not_le hlt))
        (Nat.pos_of_ne_zero ha)
    omega
  · rintro (ha | hmn | hcap)
    · rw [ha, Nat.zero_mul, Nat.zero_mul]
    · exact min_le_min_right cap
        (Nat.mul_le_mul_left a (Nat.pow_le_pow_right (by decide) hmn))
    · rw [Nat.min_eq_right hcap]
      exact Nat.min_le_right _ _

/-- The value of the difficulty at a height. -/
theorem getDifficultyWithHalving_eq {config : PoWConfig} (hi : config.halvingInterval ≠ 0)
    (baseDifficulty blockHeight : U64) :
    ∃ d, getDifficultyWithHalving config baseDifficulty blockHeight = some d ∧
      d.toNat = min (baseDifficulty.toNat * 2 ^ doublings config blockHeight) (2 ^ 64 - 1) := by
  refine ⟨_, by rw [getDifficultyWithHalving, Word.checkedDiv, if_neg hi]; rfl, ?_⟩
  rw [Word.toNat_saturatingMul, Word.toNat_saturatingPow, min_mul_min, BitVec.toNat_setWidth,
    BitVec.toNat_udiv]
  rfl

/-- Difficulties are compared by their values. -/
theorem noHigher_iff_le {config : PoWConfig} (hi : config.halvingInterval ≠ 0)
    (baseDifficulty height height' : U64) :
    NoHigher config baseDifficulty height height' ↔
      min (baseDifficulty.toNat * 2 ^ doublings config height) (2 ^ 64 - 1) ≤
        min (baseDifficulty.toNat * 2 ^ doublings config height') (2 ^ 64 - 1) := by
  obtain ⟨d, hd, hv⟩ := getDifficultyWithHalving_eq hi baseDifficulty height
  obtain ⟨d', hd', hv'⟩ := getDifficultyWithHalving_eq hi baseDifficulty height'
  rw [NoHigher, hd, hd', ← hv, ← hv', ← BitVec.le_def]
  constructor
  · rintro ⟨_, _, ⟨⟩, ⟨⟩, h⟩
    exact h
  · exact fun h ↦ ⟨d, d', rfl, rfl, h⟩

/-- Between two heights the difficulty does not fall exactly when it is zero anyway, the
exponent does not fall, or the second difficulty is the largest one. -/
theorem noHigher_iff {config : PoWConfig} (hi : config.halvingInterval ≠ 0)
    (baseDifficulty height height' : U64) :
    NoHigher config baseDifficulty height height' ↔
      baseDifficulty = 0 ∨ doublings config height ≤ doublings config height' ∨
        2 ^ 64 - 1 ≤ baseDifficulty.toNat * 2 ^ doublings config height' := by
  rw [noHigher_iff_le hi, min_mul_two_pow_le_iff, ← BitVec.toNat_inj]
  rfl

/-- Below 2³² halvings the difficulty does not fall. -/
theorem noHigher_of_lt {config : PoWConfig} (hi : config.halvingInterval ≠ 0)
    (baseDifficulty : U64) {height height' : U64} (hle : height ≤ height')
    (hlt : height'.toNat / config.halvingInterval.toNat < 2 ^ 32) :
    NoHigher config baseDifficulty height height' := by
  have hdiv : height.toNat / config.halvingInterval.toNat ≤
      height'.toNat / config.halvingInterval.toNat :=
    Nat.div_le_div_right (BitVec.le_def.mp hle)
  rw [noHigher_iff_le hi, min_mul_two_pow_le_iff, doublings, doublings, Nat.mod_eq_of_lt hlt,
    Nat.mod_eq_of_lt (hdiv.trans_lt hlt)]
  exact .inr (.inl hdiv)

/-- With the default interval, the difficulty at the first halving is not below that at the
start. -/
theorem noHigher_iff_first_halving :
    NoHigher .default 1_000_000 0 210_000 ↔
      (1_000_000 : U64) = 0 ∨ doublings .default 0 ≤ doublings .default 210_000 ∨
        2 ^ 64 - 1 ≤ (1_000_000 : U64).toNat * 2 ^ doublings .default 210_000 :=
  noHigher_iff (by decide) 1_000_000 0 210_000

/-- With a halving every block, the difficulty of height 2³² is that of height zero, and the
difficulty of height one is twice as high. -/
theorem difficulty_falls_to_base :
    let config := { PoWConfig.default with halvingInterval := 1 }
    getDifficultyWithHalving config 1 1 = some 2 ∧
      getDifficultyWithHalving config 1 (1 <<< 32) = some 1 ∧
      ¬NoHigher config 1 1 (1 <<< 32) := by
  have hone : getDifficultyWithHalving { PoWConfig.default with halvingInterval := 1 } 1 1 =
      some 2 := by decide
  have hfar : getDifficultyWithHalving { PoWConfig.default with halvingInterval := 1 } 1
      (1 <<< 32) = some 1 := by decide
  refine ⟨hone, hfar, ?_⟩
  rintro ⟨d, d', hd, hd', hle⟩
  cases hone.symm.trans hd
  cases hfar.symm.trans hd'
  exact absurd hle (by decide)

end SilverPow.Consensus
