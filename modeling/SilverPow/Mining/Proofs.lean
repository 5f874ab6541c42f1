import Mathlib.Data.Nat.Log
import SilverPow.Mining.Pool
import SilverPow.Work.Package

/-!
# The work behind a share

A share declares its own difficulty, and the pool does not look at its hash. What a hash
reaches is a power of two, so that a share has done the work it declares exactly when
its hash has as many leading zero bits as the difficulty has bits.
-/

namespace SilverPow.Mining

open SilverPow.Base SilverPow.Work MiningPool

/-- A hash of 64 bytes reaches a difficulty exactly when it has the leading zero bits of
the next power of two; 64 of them reach every difficulty. -/
theorem le_getDifficultyFromHash_iff (hash : Bytes) (difficulty : U64) :
    (∃ reached, WorkProof.getDifficultyFromHash hash = .ok reached ∧ difficulty ≤ reached) ↔
      hash.length = 64 ∧ Nat.clog 2 difficulty.toNat ≤ leadingZeroBits hash := by
  unfold WorkProof.getDifficultyFromHash
  have hd : Nat.clog 2 difficulty.toNat ≤ 64 := Nat.clog_le_of_le_pow difficulty.isLt.le
  by_cases hl : hash.length = 64
  · rw [if_neg (not_not.mpr hl)]
    simp only [Except.ok.injEq, exists_eq_left', hl, true_and]
    by_cases hz : 64 ≤ leadingZeroBits hash
    · rw [if_pos hz]
      refine iff_of_true ?_ (hd.trans hz)
      rw [BitVec.le_def, BitVec.toNat_allOnes]
      exact Nat.le_sub_one_of_lt difficulty.isLt
    · have hpow : 2 ^ leadingZeroBits hash < 2 ^ 64 :=
        Nat.pow_lt_pow_right (by omega) (by omega)
      have hv : ((1 <<< leadingZeroBits hash : Nat) : U64).toNat = 2 ^ leadingZeroBits hash := by
        rw [Nat.one_shiftLeft]
        exact Nat.mod_eq_of_lt hpow
      rw [if_neg hz, BitVec.le_def, hv, Nat.clog_le_iff_le_pow (by omega)]
  · rw [if_pos hl]
    exact iff_of_false (fun ⟨_, h, _⟩ ↦ by cases h) fun h ↦ hl h.1

/-- A share is accepted exactly when it passes the two checks. -/
theorem submitShare_eq_ok_iff (s : MiningPool) (share : MinerShare) (now : U64) :
    (∃ isBlock, (s.submitShare share now).1 = .ok isBlock) ↔
      ¬(share.difficulty < s.config.minShareDifficulty ∨ share.timestamp + 3600 < now) := by
  unfold submitShare
  by_cases hd : share.difficulty < s.config.minShareDifficulty
  · rw [if_pos hd]
    exact iff_of_false (fun ⟨_, h⟩ ↦ by cases h) fun h ↦ h (.inl hd)
  · rw [if_neg hd]
    by_cases ht : share.timestamp + 3600 < now
    · rw [if_pos ht]
      exact iff_of_false (fun ⟨_, h⟩ ↦ by cases h) fun h ↦ h (.inr ht)
    · rw [if_neg ht]
      exact iff_of_true ⟨_, rfl⟩ fun h ↦ h.elim hd ht

/-- If the pool accepts a share, its hash reaches the difficulty that it declares. -/
def ProvesWork (s : MiningPool) (share : MinerShare) (now : U64) : Prop :=
  ∀ isBlock, (s.submitShare share now).1 = .ok isBlock →
    ∃ reached, WorkProof.getDifficultyFromHash share.hashResult = .ok reached ∧
      share.difficulty ≤ reached

/-- An accepted share has proved its work exactly when it is refused by the two checks, or
its hash has 64 bytes and the leading zero bits that its difficulty asks for. -/
theorem provesWork_iff (s : MiningPool) (share : MinerShare) (now : U64) :
    ProvesWork s share now ↔
      (share.difficulty < s.config.minShareDifficulty ∨ share.timestamp + 3600 < now) ∨
        share.hashResult.length = 64 ∧
          Nat.clog 2 share.difficulty.toNat ≤ leadingZeroBits share.hashResult := by
  rw [← le_getDifficultyFromHash_iff, Decidable.or_iff_not_imp_left,
    ← submitShare_eq_ok_iff s share now]
  constructor
  · rintro h ⟨isBlock, hok⟩
    exact h isBlock hok
  · intro h isBlock hok
    exact h ⟨isBlock, hok⟩

/-- A share of difficulty 10,000 whose hash has no leading zero bit. -/
def unprovenShare : MinerShare :=
  ⟨[10, 11], [], 12345, 0, List.replicate 64 0xFF, 10_000, 5, false, 0, 100⟩

/-- The constructor lets it pass, the pool accepts it, and its hash reaches 1. -/
theorem unprovenShare_accepted :
    MinerShare.new [10, 11] [] 12345 0 (List.replicate 64 0xFF) 10_000 false 0 100 5 =
        .ok unprovenShare ∧
      ((MiningPool.new .new).submitShare unprovenShare 5).1 = .ok false ∧
      WorkProof.getDifficultyFromHash unprovenShare.hashResult = .ok 1 ∧
      ¬ProvesWork (.new .new) unprovenShare 5 := by
  have hok : ((MiningPool.new .new).submitShare unprovenShare 5).1 = .ok false := by decide
  have hreached : WorkProof.getDifficultyFromHash unprovenShare.hashResult = .ok 1 := by decide
  refine ⟨by decide, hok, hreached, fun h ↦ ?_⟩
  obtain ⟨reached, hr, hle⟩ := h false hok
  cases hreached.symm.trans hr
  exact absurd hle (by decide)

end SilverPow.Mining
