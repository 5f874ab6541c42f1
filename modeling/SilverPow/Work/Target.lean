import SilverPow.Base.Bytes

/-!
# Targets of leading zero bits

The block validator and the pool compare a hash with a target that starts with
`floor(log2(difficulty))` zero bits and is all ones after them. A hash of 64 bytes passes
the comparison exactly when it starts with as many zero bits.
-/

namespace SilverPow.Work

open SilverPow.Base

/-- A hash: 64 bytes. -/
structure Digest where
  bytes : Bytes
  length_eq : bytes.length = 64

/-- A hash function in the place of SHA-512. -/
abbrev Sha512 := Bytes → Digest

/-- `(difficulty as f64).log2() as u32`, read as the exact floor. -/
def log2Floor (difficulty : U64) : Nat := Nat.log2 difficulty.toNat

/-- The target building that `BlockValidator::calculate_target_from_difficulty`
(`src/block_validator.rs:197–216`) and the pool (`src/stratum_pool.rs:459–478`, `552–570`)
each have a copy of. -/
def leadingZeroTarget (leadingZeroBits : Nat) : Bytes :=
  let leadingZeroBytes := leadingZeroBits / 8
  let remainingBits := leadingZeroBits % 8
  let zeroed := min leadingZeroBytes 64
  let target := List.replicate zeroed 0 ++ (List.replicate 64 0xFF).drop zeroed
  if 0 < remainingBits ∧ leadingZeroBytes < 64 then
    target.set leadingZeroBytes ((1 <<< (8 - remainingBits)) - 1)
  else target

/-- A difficulty has at most 63 bits below its highest one. -/
theorem log2Floor_lt (difficulty : U64) : log2Floor difficulty < 64 := by
  unfold log2Floor
  rcases Nat.eq_zero_or_pos difficulty.toNat with h | h
  · rw [h]
    decide
  · exact (Nat.log2_lt (Nat.ne_of_gt h)).mpr difficulty.isLt

/-- The target in parts: zero bytes, the byte on the boundary, and ones. -/
theorem leadingZeroTarget_eq {k : Nat} (hk : k < 512) :
    leadingZeroTarget k = List.replicate (k / 8) 0 ++
      BitVec.ofNat 8 (2 ^ (8 - k % 8) - 1) :: List.replicate (63 - k / 8) 0xFF := by
  have hz : k / 8 < 64 := by omega
  have hd : (List.replicate 64 (0xFF : U8)).drop (k / 8) =
      0xFF :: List.replicate (63 - k / 8) 0xFF := by
    rw [List.drop_replicate, ← List.replicate_succ]
    congr 1
    omega
  unfold leadingZeroTarget
  dsimp only
  rw [Nat.min_eq_left (Nat.le_of_lt hz), hd]
  by_cases hr : 0 < k % 8
  · have hm : (1 <<< (8 - k % 8) : U8) - 1 = BitVec.ofNat 8 (2 ^ (8 - k % 8) - 1) := by
      have : ∀ r < 8, 0 < r → (1 <<< (8 - r) : U8) - 1 = BitVec.ofNat 8 (2 ^ (8 - r) - 1) := by
        decide
      exact this _ (Nat.mod_lt _ (by omega)) hr
    rw [if_pos ⟨hr, hz⟩, hm, List.set_append_right _ _ (by simp)]
    simp
  · have h0 : k % 8 = 0 := by omega
    rw [if_neg fun h ↦ hr h.1, h0]
    rfl

/-- The target has 64 bytes. -/
theorem length_leadingZeroTarget {k : Nat} (hk : k < 512) :
    (leadingZeroTarget k).length = 64 := by
  rw [leadingZeroTarget_eq hk]
  simp
  omega

/-- The target is the largest value with as many leading zero bits. -/
theorem beNat_leadingZeroTarget {k : Nat} (hk : k < 512) :
    beNat (leadingZeroTarget k) + 1 = 2 ^ (512 - k) := by
  have hr : 2 ^ (8 - k % 8) ≤ 256 := Nat.pow_le_pow_right (by omega) (Nat.sub_le 8 _)
  have hp : 0 < 2 ^ (8 - k % 8) := Nat.two_pow_pos _
  have ho := beNat_ones (63 - k / 8)
  rw [leadingZeroTarget_eq hk, beNat_append, beNat_zeros, Nat.zero_mul, Nat.zero_add, beNat,
    List.length_replicate, BitVec.toNat_ofNat, Nat.mod_eq_of_lt (by omega), Nat.add_assoc, ho,
    ← Nat.succ_mul, Nat.succ_eq_add_one, Nat.sub_add_cancel hp,
    show 256 = 2 ^ 8 from rfl, ← pow_mul, ← pow_add]
  congr 1
  omega

/-- A hash meets the target exactly when it has as many leading zero bits. -/
theorem sliceLe_leadingZeroTarget {hash : Bytes} (hl : hash.length = 64) {k : Nat}
    (hk : k < 512) : sliceLe hash (leadingZeroTarget k) = true ↔ k ≤ leadingZeroBits hash := by
  have hv := beNat_leadingZeroTarget hk
  rw [sliceLe_iff (hl.trans (length_leadingZeroTarget hk).symm),
    le_leadingZeroBits_iff (by omega), hl, show 8 * 64 = 512 from rfl]
  omega

/-- From as many zero bits on as a hash has, the target is zero. -/
theorem leadingZeroTarget_of_le {k : Nat} (hk : 512 ≤ k) :
    leadingZeroTarget k = List.replicate 64 0 := by
  have hz : 64 ≤ k / 8 := by omega
  unfold leadingZeroTarget
  dsimp only
  rw [Nat.min_eq_right hz, if_neg (by omega)]
  rfl

/-- For any number of zero bits: a hash meets the target exactly when it has as many, or has no
other. -/
theorem sliceLe_leadingZeroTarget_min {hash : Bytes} (hl : hash.length = 64) (k : Nat) :
    sliceLe hash (leadingZeroTarget k) = true ↔ min k 512 ≤ leadingZeroBits hash := by
  rcases Nat.lt_or_ge k 512 with hk | hk
  · rw [Nat.min_eq_left hk.le, sliceLe_leadingZeroTarget hl hk]
  · rw [leadingZeroTarget_of_le hk, Nat.min_eq_right hk, sliceLe_iff (by rw [hl]; rfl),
      le_leadingZeroBits_iff (by omega), hl, beNat_zeros]
    omega

/-- A hash meets the target of a difficulty exactly when it has its leading zero bits. -/
theorem sliceLe_leadingZeroTarget_log2Floor {hash : Bytes} (hl : hash.length = 64)
    (difficulty : U64) :
    sliceLe hash (leadingZeroTarget (log2Floor difficulty)) = true ↔
      log2Floor difficulty ≤ leadingZeroBits hash :=
  sliceLe_leadingZeroTarget hl ((log2Floor_lt difficulty).trans (by omega))

end SilverPow.Work
