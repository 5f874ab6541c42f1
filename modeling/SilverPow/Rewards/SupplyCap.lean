import Mathlib.Algebra.Order.BigOperators.Group.Finset
import SilverPow.Ledger.Validation
import SilverPow.Rewards.Schedule

/-!
# Emission against the supply cap

Transaction validation caps amounts at 21,000,000 SLVR. The schedule keeps any cap that is
twice what the first interval pays. The default base reward is ten times what the cap
allows for, so that the cap is passed within the first interval.
-/

namespace SilverPow.Rewards

open SilverPow.Base SilverPow.Ledger RewardCalculator

/-- The calculator of the default configuration with another base reward. -/
def calculatorWith (baseBlockReward : U128) : RewardCalculator :=
  ⟨{ PoWConfig.default with baseBlockReward }⟩

/-- What the default schedule pays below a height, at some base reward. -/
theorem emitted_calculatorWith (base : U128) {n : Nat} (hn : n ≤ 2 ^ 64) :
    (calculatorWith base).emitted n =
      some (∑ h ∈ Finset.range n, scheduled 210_000 base.toNat h) :=
  (calculatorWith base).emitted_eq_sum (show (210_000 : U64) ≠ 0 by decide) hn

/-- An initial reward of at most 50 SLVR keeps the emission within the maximum supply at
every height. -/
theorem emitted_le_maxSupply {base : U128} (hb : base.toNat ≤ 5_000_000_000) (height : U64) :
    ∃ total, (calculatorWith base).emitted height.toNat = some total ∧
      total ≤ maxSupply.toNat := by
  refine ⟨_, emitted_calculatorWith base height.isLt.le, ?_⟩
  refine (sum_scheduled_le 210_000 base.toNat (by omega) height.toNat).trans ?_
  rw [show maxSupply.toNat = 2 * 210_000 * 5_000_000_000 from rfl]
  exact Nat.mul_le_mul_left _ hb

/-- The default schedule pays at most the maximum supply below a height exactly when there
are at most 42,000 blocks below it. -/
theorem emitted_default_le_maxSupply_iff (height : U64) :
    ∃ total, (RewardCalculator.mk .default).emitted height.toNat = some total ∧
      (total ≤ maxSupply.toNat ↔ height.toNat ≤ 42_000) := by
  refine ⟨_, emitted_calculatorWith _ height.isLt.le, ?_⟩
  rw [show maxSupply.toNat = 42_000 * 50_000_000_000 from rfl]
  constructor
  · intro h
    by_contra hl
    have hs : ∑ h ∈ Finset.range 42_001, scheduled 210_000 50_000_000_000 h =
        42_001 * 50_000_000_000 := sum_scheduled_of_le _ _ (by omega)
    have hm : ∑ h ∈ Finset.range 42_001, scheduled 210_000 50_000_000_000 h ≤
        ∑ h ∈ Finset.range height.toNat, scheduled 210_000 50_000_000_000 h :=
      Finset.sum_le_sum_of_subset (Finset.range_subset_range.mpr (by omega))
    have := hm.trans h
    omega
  · intro h
    have hs := sum_scheduled_of_le 210_000 50_000_000_000 (h.trans (by decide : 42_000 ≤ 210_000))
    exact hs.le.trans (Nat.mul_le_mul_right _ h)

/-- 42,001 blocks of the default schedule pay 500 SLVR more than the maximum supply. -/
theorem emitted_default_exceeds :
    (RewardCalculator.mk .default).emitted 42_001 = some (maxSupply.toNat + 50_000_000_000) := by
  refine (emitted_calculatorWith _ (by omega)).trans ?_
  rw [sum_scheduled_of_le _ _ (by omega)]
  rfl

end SilverPow.Rewards
