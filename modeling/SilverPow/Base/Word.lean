import Mathlib.Algebra.BigOperators.Group.List.Basic
import Mathlib.Data.BitVec
import Mathlib.Data.Nat.Size

/-!
# Machine words

Fixed-width unsigned words as `BitVec`, with the operations that a compiled program
performs on them: wrapping arithmetic is `BitVec`'s own, and the saturating forms, the
orders and the leading-zero count are defined here. Later modules reason about words
through the laws that state the value of an operation in `Nat`.
-/

namespace SilverPow.Base

/-- One byte. -/
abbrev U8 := BitVec 8

/-- An unsigned 32-bit word. -/
abbrev U32 := BitVec 32

/-- An unsigned 64-bit word. -/
abbrev U64 := BitVec 64

/-- An unsigned 128-bit word. -/
abbrev U128 := BitVec 128

/-- `isize::MAX`: a vector holds at most as many elements, and a push beyond aborts the
program. -/
def maxCapacity : Nat := 2 ^ 63 - 1

namespace Word

variable {w : Nat}

/-- Addition clamped at the largest word. -/
def saturatingAdd (a b : BitVec w) : BitVec w :=
  if a.toNat + b.toNat < 2 ^ w then a + b else BitVec.allOnes w

/-- Subtraction clamped at zero. -/
def saturatingSub (a b : BitVec w) : BitVec w :=
  if b.toNat ≤ a.toNat then a - b else 0

/-- Multiplication clamped at the largest word. -/
def saturatingMul (a b : BitVec w) : BitVec w :=
  if a.toNat * b.toNat < 2 ^ w then a * b else BitVec.allOnes w

/-- A power clamped at the largest word. -/
def saturatingPow (a : BitVec w) (n : Nat) : BitVec w :=
  if a.toNat ^ n < 2 ^ w then BitVec.ofNat w (a.toNat ^ n) else BitVec.allOnes w

/-- Addition, which an overflow aborts. -/
def checkedAdd (a b : BitVec w) : Option (BitVec w) :=
  if a.toNat + b.toNat < 2 ^ w then some (a + b) else none

/-- Subtraction, which an underflow aborts. -/
def checkedSub (a b : BitVec w) : Option (BitVec w) :=
  if b.toNat ≤ a.toNat then some (a - b) else none

/-- Multiplication, which an overflow aborts. -/
def checkedMul (a b : BitVec w) : Option (BitVec w) :=
  if a.toNat * b.toNat < 2 ^ w then some (a * b) else none

/-- Division, which a zero divisor aborts. -/
def checkedDiv (a b : BitVec w) : Option (BitVec w) :=
  if b = 0 then none else some (a / b)

/-- `Ord::max`. -/
def larger (a b : BitVec w) : BitVec w := if b < a then a else b

/-- `Ord::min`. -/
def smaller (a b : BitVec w) : BitVec w := if b < a then b else a

/-- `is_multiple_of`; zero is the one multiple of zero, since `a % 0` is `a`. -/
def isMultipleOf (a b : BitVec w) : Bool := a % b = 0

/-- Number of zero bits above the highest set bit. -/
def leadingZeros (a : BitVec w) : Nat := w - a.toNat.size

/-- Saturating addition is addition capped at the largest word. -/
theorem toNat_saturatingAdd (a b : BitVec w) :
    (saturatingAdd a b).toNat = min (a.toNat + b.toNat) (2 ^ w - 1) := by
  unfold saturatingAdd
  split
  · next h => rw [BitVec.toNat_add, Nat.mod_eq_of_lt h]; omega
  · next h => rw [BitVec.toNat_allOnes]; omega

/-- Saturating multiplication is multiplication capped at the largest word. -/
theorem toNat_saturatingMul (a b : BitVec w) :
    (saturatingMul a b).toNat = min (a.toNat * b.toNat) (2 ^ w - 1) := by
  unfold saturatingMul
  split
  · next h =>
    rw [BitVec.toNat_mul, Nat.mod_eq_of_lt h]
    omega
  · rw [BitVec.toNat_allOnes]
    omega

/-- Saturating subtraction is truncated subtraction. -/
theorem toNat_saturatingSub (a b : BitVec w) :
    (saturatingSub a b).toNat = a.toNat - b.toNat := by
  unfold saturatingSub
  split
  · next h => rw [BitVec.toNat_sub_of_le (BitVec.le_def.mpr h)]
  · next h => rw [Nat.sub_eq_zero_of_le (by omega)]; rfl

/-- A saturating power is a power capped at the largest word. -/
theorem toNat_saturatingPow (a : BitVec w) (n : Nat) :
    (saturatingPow a n).toNat = min (a.toNat ^ n) (2 ^ w - 1) := by
  unfold saturatingPow
  split
  · next h =>
    rw [BitVec.toNat_ofNat, Nat.mod_eq_of_lt h]
    omega
  · rw [BitVec.toNat_allOnes]
    omega

/-- A saturating addition that stays in range is exact. -/
theorem toNat_saturatingAdd_of_lt {a b : BitVec w} (h : a.toNat + b.toNat < 2 ^ w) :
    (saturatingAdd a b).toNat = a.toNat + b.toNat := by
  rw [toNat_saturatingAdd]
  omega

/-- A sum that is not aborted is exact. -/
theorem toNat_of_checkedAdd {a b c : BitVec w} (h : checkedAdd a b = some c) :
    c.toNat = a.toNat + b.toNat := by
  unfold checkedAdd at h
  split at h
  · next hlt =>
    cases h
    rw [BitVec.toNat_add, Nat.mod_eq_of_lt hlt]
  · cases h

/-- A sum that does not overflow is not aborted. -/
theorem checkedAdd_of_lt {a b : BitVec w} (h : a.toNat + b.toNat < 2 ^ w) :
    checkedAdd a b = some (a + b) := if_pos h

/-- A difference that does not underflow is not aborted. -/
theorem checkedSub_of_le {a b : BitVec w} (h : b.toNat ≤ a.toNat) :
    checkedSub a b = some (a - b) := if_pos h

/-- A product that does not overflow is not aborted. -/
theorem checkedMul_of_lt {a b : BitVec w} (h : a.toNat * b.toNat < 2 ^ w) :
    checkedMul a b = some (a * b) := if_pos h

/-- The value of the larger word. -/
theorem toNat_larger (a b : BitVec w) : (larger a b).toNat = max a.toNat b.toNat := by
  unfold larger
  split
  · next h =>
    rw [BitVec.lt_def] at h
    omega
  · next h =>
    rw [BitVec.lt_def] at h
    omega

/-- The value of the smaller word. -/
theorem toNat_smaller (a b : BitVec w) : (smaller a b).toNat = min a.toNat b.toNat := by
  unfold smaller
  split
  · next h =>
    rw [BitVec.lt_def] at h
    omega
  · next h =>
    rw [BitVec.lt_def] at h
    omega

/-- The wrapping sum of a list is its true sum modulo the word size. -/
theorem toNat_sum (xs : List (BitVec w)) :
    xs.sum.toNat = (xs.map BitVec.toNat).sum % 2 ^ w := by
  induction xs with
  | nil => simp
  | cons x xs ih =>
    rw [List.sum_cons, BitVec.toNat_add, ih, List.map_cons, List.sum_cons, Nat.add_mod_mod]

/-- A wrapping sum whose true value is in range is exact. -/
theorem toNat_sum_of_lt {xs : List (BitVec w)} (h : (xs.map BitVec.toNat).sum < 2 ^ w) :
    xs.sum.toNat = (xs.map BitVec.toNat).sum := by
  rw [toNat_sum, Nat.mod_eq_of_lt h]

/-- A word has at least `k` leading zeros exactly when its top `k` bits are clear. -/
theorem le_leadingZeros_iff {a : BitVec w} {k : Nat} (hk : k ≤ w) :
    k ≤ leadingZeros a ↔ a.toNat < 2 ^ (w - k) := by
  have hs : a.toNat.size ≤ w := Nat.size_le.mpr a.isLt
  rw [← Nat.size_le, leadingZeros]
  omega

/-- Nothing above a word other than zero is zero. -/
theorem ne_zero_of_le {a b : BitVec w} (ha : a ≠ 0) (h : a ≤ b) : b ≠ 0 := by
  rintro rfl
  exact ha (BitVec.le_zero_iff.mp h)

theorem ne_zero_of_lt {a b : BitVec w} (h : a < b) : b ≠ 0 := by
  rintro rfl
  exact BitVec.not_lt_zero h

/-- Only the zero word has all its bits leading zeros. -/
theorem leadingZeros_le (a : BitVec w) : leadingZeros a ≤ w := Nat.sub_le _ _

end Word
end SilverPow.Base
