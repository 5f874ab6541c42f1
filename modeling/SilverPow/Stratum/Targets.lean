import SilverPow.Stratum.Agreement
import SilverPow.Work.Acceptance

/-!
# One target in the validator and the pool

The validator and the two checks of the pool each build the target of leading zero bits. Where
the pool's float logarithm is the exact one, the three comparisons agree for a hash of 64
bytes, and they accept what the exact quotient by the difficulty accepts, up to a factor of
two.
-/

namespace SilverPow.Stratum

open SilverPow.Base SilverPow.Work

namespace PoolState

/-- The share check compares the decoded hash with the target. -/
theorem validateShareDifficulty_eq {c : Crates} {hash : String} {hashBytes : Bytes}
    (hd : c.hexDecode hash = .ok hashBytes) (hl : hashBytes.length = 64) {difficulty : U64}
    (h0 : difficulty ≠ 0) :
    validateShareDifficulty c hash difficulty =
      sliceLe hashBytes (leadingZeroTarget (c.log2 difficulty).toNat) := by
  rw [validateShareDifficulty, hd]
  dsimp only
  rw [if_neg (not_not.mpr hl), if_neg h0]

/-- The block check compares the decoded hash with the target of the network difficulty. -/
theorem isBlockCandidate_fst {c : Crates} {env : Env} {pool : PoolState} {hash : String}
    {hashBytes : Bytes} (hd : c.hexDecode hash = .ok hashBytes) (hl : hashBytes.length = 64)
    (h0 : (pool.networkDifficulty c env).1 ≠ 0) :
    (pool.isBlockCandidate c env hash).1 =
      sliceLe hashBytes (leadingZeroTarget (c.log2 (pool.networkDifficulty c env).1).toNat) := by
  rw [isBlockCandidate, hd]
  dsimp only
  rw [if_neg (not_not.mpr hl), if_neg h0]

end PoolState

/-- What the three checks have in common at a difficulty: one target of 64 bytes, whose value
is that of `512 - k` one bits for `k` the logarithm of the difficulty. A hash meets it exactly
when its first `k` bits are zero; it does up to the quotient by the difficulty, and does not
above twice the quotient. -/
structure LeadingZeroTarget (difficulty : U64) (target : Bytes) : Prop where
  length_eq : target.length = 64
  value_eq : beNat target = 2 ^ (512 - log2Floor difficulty) - 1
  passes_iff (hash : Digest) :
    sliceLe hash.bytes target = true ↔ log2Floor difficulty ≤ leadingZeroBits hash.bytes
  passes_of_le (hash : Digest) (h : beNat hash.bytes ≤ (2 ^ 512 - 1) / difficulty.toNat) :
    sliceLe hash.bytes target = true
  fails_of_lt (hash : Digest) (h : 2 * (2 ^ 512 - 1) / difficulty.toNat < beNat hash.bytes) :
    sliceLe hash.bytes target = false

theorem leadingZeroTarget_spec {difficulty : U64} (h0 : difficulty ≠ 0) :
    LeadingZeroTarget difficulty (leadingZeroTarget (log2Floor difficulty)) where
  length_eq := length_leadingZeroTarget ((log2Floor_lt difficulty).trans (by omega))
  value_eq := Nat.eq_sub_of_add_eq (beNat_leadingZeroTarget_log2Floor difficulty)
  passes_iff hash := sliceLe_leadingZeroTarget_log2Floor hash.length_eq difficulty
  passes_of_le hash h := sliceLe_of_beNat_le hash.length_eq h0 h
  fails_of_lt hash h := by
    rw [← Bool.not_eq_true]
    intro hpass
    exact absurd (beNat_le_of_sliceLe hash.length_eq h0 hpass) (Nat.not_le.mpr h)

/-- The validator, the share check and the block check of the pool compare a hash with this
target at a difficulty, whose float logarithm is the exact one. -/
def ComparedWith (difficulty : U64) (target : Bytes) : Prop :=
  BlockValidator.calculateTargetFromDifficulty difficulty = .ok target ∧
    ∀ (c : Crates), c.LogFloor difficulty → ∀ (text : String) (hash : Digest),
      c.hexDecode text = .ok hash.bytes →
      PoolState.validateShareDifficulty c text difficulty = sliceLe hash.bytes target ∧
      ∀ (env : Env) (pool : PoolState), (pool.networkDifficulty c env).1 = difficulty →
        (pool.isBlockCandidate c env text).1 = sliceLe hash.bytes target

theorem comparedWith_leadingZeroTarget {difficulty : U64} (h0 : difficulty ≠ 0) :
    ComparedWith difficulty (leadingZeroTarget (log2Floor difficulty)) := by
  refine ⟨if_neg h0, fun c hlog text hash hd ↦ ⟨?_, ?_⟩⟩
  · rw [PoolState.validateShareDifficulty_eq hd hash.length_eq h0, hlog]
  · intro env pool hn
    rw [PoolState.isBlockCandidate_fst hd hash.length_eq (hn ▸ h0), hn, hlog]

/-- At every difficulty the three checks compare with one target, the target of leading zero
bits. -/
theorem three_checks_one_target (difficulty : U64) (h1 : 1 ≤ difficulty) :
    ∃ target, ComparedWith difficulty target ∧ LeadingZeroTarget difficulty target := by
  have h0 : difficulty ≠ 0 := Word.ne_zero_of_le (by decide) h1
  exact ⟨_, comparedWith_leadingZeroTarget h0, leadingZeroTarget_spec h0⟩

theorem three_checks_one_target_thousand :
    ∃ target, ComparedWith 1000 target ∧ LeadingZeroTarget 1000 target :=
  three_checks_one_target 1000 (by decide)

end SilverPow.Stratum
