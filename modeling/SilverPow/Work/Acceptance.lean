import SilverPow.Work.Validator

/-!
# What a target of leading zero bits accepts

The target of a difficulty is the quotient of the largest hash by the difficulty, up to a
factor of two: it is the exact quotient by the power of two below the difficulty. A hash meets
it exactly when the difficulty that the hash achieves reaches this power.
-/

namespace SilverPow.Work

open SilverPow.Base

theorem two_pow_log2Floor_le {difficulty : U64} (h0 : difficulty ≠ 0) :
    2 ^ log2Floor difficulty ≤ difficulty.toNat :=
  Nat.log2_self_le (BitVec.toNat_pos_of_ne_zero h0).ne'

theorem lt_two_pow_log2Floor_succ (difficulty : U64) :
    difficulty.toNat < 2 * 2 ^ log2Floor difficulty := by
  rw [← pow_succ']
  exact Nat.lt_log2_self

/-- The target of a difficulty, by its value. -/
theorem beNat_leadingZeroTarget_log2Floor (difficulty : U64) :
    beNat (leadingZeroTarget (log2Floor difficulty)) + 1 = 2 ^ (512 - log2Floor difficulty) :=
  beNat_leadingZeroTarget ((log2Floor_lt difficulty).trans (by omega))

/-- A hash of 64 bytes meets the target exactly when its value is below the power of two that
is left of the leading zero bits. -/
theorem sliceLe_iff_beNat_lt {hash : Bytes} (hl : hash.length = 64) (difficulty : U64) :
    sliceLe hash (leadingZeroTarget (log2Floor difficulty)) = true ↔
      beNat hash < 2 ^ (512 - log2Floor difficulty) := by
  have hlt := log2Floor_lt difficulty
  rw [sliceLe_iff (hl.trans (length_leadingZeroTarget (by omega)).symm),
    ← beNat_leadingZeroTarget_log2Floor difficulty]
  omega

/-- The values left of the leading zero bits, times the power of two below the difficulty. -/
theorem two_pow_mul_two_pow_log2Floor (difficulty : U64) :
    2 ^ (512 - log2Floor difficulty) * 2 ^ log2Floor difficulty = 2 ^ 512 := by
  have hlt := log2Floor_lt difficulty
  rw [← pow_add]
  congr 1
  omega

/-- Every hash up to the quotient by the difficulty meets the target. -/
theorem sliceLe_of_beNat_le {hash : Bytes} (hl : hash.length = 64) {difficulty : U64}
    (h0 : difficulty ≠ 0) (h : beNat hash ≤ (2 ^ 512 - 1) / difficulty.toNat) :
    sliceLe hash (leadingZeroTarget (log2Floor difficulty)) = true := by
  rw [sliceLe_iff_beNat_lt hl]
  have hpow := two_pow_log2Floor_le h0
  have hpos : 0 < difficulty.toNat := (Nat.two_pow_pos _).trans_le hpow
  rw [Nat.le_div_iff_mul_le hpos] at h
  have hle : beNat hash * 2 ^ log2Floor difficulty ≤ beNat hash * difficulty.toNat :=
    Nat.mul_le_mul_left _ hpow
  apply Nat.lt_of_mul_lt_mul_right (a := 2 ^ log2Floor difficulty)
  rw [two_pow_mul_two_pow_log2Floor]
  omega

/-- No hash above twice the quotient by the difficulty meets the target. -/
theorem beNat_le_of_sliceLe {hash : Bytes} (hl : hash.length = 64) {difficulty : U64}
    (h0 : difficulty ≠ 0)
    (h : sliceLe hash (leadingZeroTarget (log2Floor difficulty)) = true) :
    beNat hash ≤ 2 * (2 ^ 512 - 1) / difficulty.toNat := by
  rw [sliceLe_iff_beNat_lt hl] at h
  have hpos : 0 < difficulty.toNat := (Nat.two_pow_pos _).trans_le (two_pow_log2Floor_le h0)
  rw [Nat.le_div_iff_mul_le hpos]
  have hmul : (beNat hash + 1) * (difficulty.toNat + 1) ≤
      2 ^ (512 - log2Floor difficulty) * (2 * 2 ^ log2Floor difficulty) :=
    Nat.mul_le_mul h (lt_two_pow_log2Floor_succ difficulty)
  rw [Nat.mul_left_comm, two_pow_mul_two_pow_log2Floor, Nat.add_mul, Nat.mul_add] at hmul
  omega

/-- The difficulty that a hash achieves: a power of two, capped by the size of the word. -/
theorem getDifficultyFromHash_eq (hash : Digest) :
    ∃ achieved, WorkProof.getDifficultyFromHash hash.bytes = .ok achieved ∧
      achieved.toNat = if 64 ≤ leadingZeroBits hash.bytes then 2 ^ 64 - 1
        else 2 ^ leadingZeroBits hash.bytes := by
  refine ⟨_, if_neg (not_not.mpr hash.length_eq), ?_⟩
  split
  · rfl
  · next hz =>
    rw [BitVec.natCast_eq_ofNat, BitVec.toNat_ofNat, Nat.one_shiftLeft,
      Nat.mod_eq_of_lt (Nat.pow_lt_pow_right (by omega) (by omega))]

/-- A hash is accepted at a difficulty exactly when the difficulty that it achieves reaches
the power of two below, and in particular when it reaches the difficulty itself. -/
theorem accepted_iff_achieved (hash : Digest) (difficulty : U64) (h1 : 1 ≤ difficulty) :
    ∃ target achieved, BlockValidator.calculateTargetFromDifficulty difficulty = .ok target ∧
      WorkProof.getDifficultyFromHash hash.bytes = .ok achieved ∧
      (sliceLe hash.bytes target = true ↔ 2 ^ log2Floor difficulty ≤ achieved.toNat) ∧
      (difficulty ≤ achieved → sliceLe hash.bytes target = true) := by
  have h0 : difficulty ≠ 0 := Word.ne_zero_of_le (by decide) h1
  obtain ⟨achieved, hd, ha⟩ := getDifficultyFromHash_eq hash
  have hiff : sliceLe hash.bytes (leadingZeroTarget (log2Floor difficulty)) = true ↔
      2 ^ log2Floor difficulty ≤ achieved.toNat := by
    have hlt := log2Floor_lt difficulty
    rw [sliceLe_leadingZeroTarget_log2Floor hash.length_eq, ha]
    split
    · next hz =>
      have hpow : 2 ^ log2Floor difficulty ≤ 2 ^ 63 := Nat.pow_le_pow_right (by omega) (by omega)
      exact ⟨fun _ ↦ by omega, fun _ ↦ by omega⟩
    · exact (Nat.pow_le_pow_iff_right (by omega)).symm
  refine ⟨_, achieved, if_neg h0, hd, hiff, fun hle ↦ hiff.mpr ?_⟩
  exact (two_pow_log2Floor_le h0).trans (BitVec.le_def.mp hle)

/-- A hash with four leading zero bits. -/
def fourZeroBits : Digest := ⟨List.replicate 64 0x0F, List.length_replicate⟩

theorem accepted_iff_achieved_seventeen :
    ∃ target achieved, BlockValidator.calculateTargetFromDifficulty 17 = .ok target ∧
      WorkProof.getDifficultyFromHash fourZeroBits.bytes = .ok achieved ∧
      (sliceLe fourZeroBits.bytes target = true ↔ 2 ^ log2Floor 17 ≤ achieved.toNat) ∧
      (17 ≤ achieved → sliceLe fourZeroBits.bytes target = true) :=
  accepted_iff_achieved fourZeroBits 17 (by decide)

end SilverPow.Work
