import Mathlib.Algebra.Order.Floor.Semifield
import Mathlib.Data.Rat.Floor
import Mathlib.Tactic.Linarith
import SilverPow.Base.Word

/-!
# Words scaled by ratios

A word times a rational, truncated to a word again. Where the ratio is between `1 / k` and
`k`, the word grows and shrinks by at most the factor `k`.
-/

namespace SilverPow.Base.Ratio

/-- `as`: a rational that is not negative truncated to a word, and clamped to the largest. -/
def truncate (w : Nat) (q : ℚ) : BitVec w := BitVec.ofNat w (min ⌊q⌋₊ (2 ^ w - 1))

/-- `f64::clamp`. -/
def clamp (q lo hi : ℚ) : ℚ :=
  let q := if q < lo then lo else q
  if hi < q then hi else q

variable {w : Nat}

/-- The value of a truncated rational. -/
theorem toNat_truncate (q : ℚ) : (truncate w q).toNat = min ⌊q⌋₊ (2 ^ w - 1) := by
  have := Nat.two_pow_pos w
  rw [truncate, BitVec.toNat_ofNat, Nat.mod_eq_of_lt]
  omega

/-- A clamped ratio is in the range it is clamped to. -/
theorem clamp_mem {q lo hi : ℚ} (h : lo ≤ hi) : lo ≤ clamp q lo hi ∧ clamp q lo hi ≤ hi := by
  unfold clamp
  dsimp only
  split_ifs with h₁ h₂ h₂
  · exact ⟨h, le_refl hi⟩
  · exact ⟨le_refl lo, h⟩
  · exact ⟨h, le_refl hi⟩
  · exact ⟨not_lt.mp h₁, not_lt.mp h₂⟩

/-- Scaling by a ratio of at least `1 / k` leaves at least the `k`-th part. -/
theorem div_le_truncate (x : BitVec w) {q : ℚ} {k : Nat} (h : 1 / (k : ℚ) ≤ q) :
    x.toNat / k ≤ (truncate w (x.toNat * q)).toNat := by
  rw [toNat_truncate]
  apply Nat.le_min.mpr
  constructor
  · rw [← Nat.floor_div_eq_div (K := ℚ)]
    apply Nat.floor_le_floor
    calc
      (x.toNat : ℚ) / k = x.toNat * (1 / k) := by rw [mul_one_div]
      _ ≤ x.toNat * q := mul_le_mul_of_nonneg_left h (Nat.cast_nonneg _)
  · have := x.isLt
    have := Nat.div_le_self x.toNat k
    omega

/-- Scaling by a ratio of at most `k` leaves at most the `k`-fold. -/
theorem truncate_le_mul (x : BitVec w) {q : ℚ} {k : Nat} (h : q ≤ k) :
    (truncate w (x.toNat * q)).toNat ≤ k * x.toNat := by
  rw [toNat_truncate]
  apply (Nat.min_le_left _ _).trans
  apply Nat.floor_le_of_le
  rw [Nat.cast_mul, mul_comm (k : ℚ)]
  exact mul_le_mul_of_nonneg_left h (Nat.cast_nonneg _)

/-! ### Division by zero -/

/-- What a division in floating point yields for numbers that are not negative, where finite
results are exact. -/
inductive Extended where
  | finite (q : ℚ)
  | infinity
  | nan
  deriving DecidableEq

namespace Extended

/-- `a / b`; by zero, it is infinite or, for zero, not a number. -/
def of (a b : ℚ) : Extended :=
  if b ≠ 0 then finite (a / b) else if a = 0 then nan else infinity

/-- A number times a quotient. -/
def scale (x : ℚ) : Extended → Extended
  | finite q => finite (x * q)
  | infinity => if x = 0 then nan else infinity
  | nan => nan

/-- `as`: infinity is cast to the largest word, and what is not a number to zero. -/
def cast (w : Nat) : Extended → BitVec w
  | finite q => truncate w q
  | infinity => BitVec.allOnes w
  | nan => 0

/-- The value of a number that is scaled by a quotient and cast to a word. -/
theorem toNat_cast_scale_of (w x a b : Nat) :
    (cast w (scale x (of a b))).toNat =
      if b = 0 then if x = 0 ∨ a = 0 then 0 else 2 ^ w - 1 else min (x * a / b) (2 ^ w - 1) := by
  by_cases hb : b = 0
  · subst hb
    by_cases ha : a = 0
    · simp [of, scale, cast, ha]
    · by_cases hx : x = 0
      · simp [of, scale, cast, ha, hx]
      · simp [of, scale, cast, ha, hx]
  · have hf : ⌊(x : ℚ) * (a / b)⌋₊ = x * a / b := by
      rw [← mul_div_assoc, ← Nat.cast_mul, Nat.floor_div_eq_div]
    rw [of, if_pos (Nat.cast_ne_zero.mpr hb), scale, cast, toNat_truncate, hf, if_neg hb]

end Extended

end SilverPow.Base.Ratio
