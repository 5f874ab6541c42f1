import SilverPow.Rewards.Distribution

/-!
# The bound on the emission

Both copies of the halving rule, `src/rewards.rs:43–53` and
`src/reward_distribution.rs:155–165`, pay less than twice what the first interval pays,
whatever the interval, the base reward and the height.
-/

namespace SilverPow.Rewards

open SilverPow.Base

/-- What a rule pays below a height is at most twice the base reward for every block of an
interval, and less when there is a base reward. -/
def EmissionBounded (reward : U64 → Option U128) (halvingInterval : U64) (baseReward : U128)
    (n : Nat) : Prop :=
  ∃ total, emittedBy reward n = some total ∧
    total ≤ 2 * halvingInterval.toNat * baseReward.toNat ∧
    (0 < baseReward → total < 2 * halvingInterval.toNat * baseReward.toNat)

/-- The rule keeps the bound. -/
theorem emissionBounded_halvedReward {halvingInterval : U64} (hi : halvingInterval ≠ 0)
    (baseReward : U128) {n : Nat} (hn : n ≤ 2 ^ 64) :
    EmissionBounded (halvedReward halvingInterval baseReward) halvingInterval baseReward n := by
  have hpos : 0 < halvingInterval.toNat := BitVec.toNat_pos_of_ne_zero hi
  refine ⟨_, emittedBy_halvedReward baseReward hi hn, ?_, ?_⟩
  · exact sum_scheduled_le _ _ hpos n
  · intro hb
    exact sum_scheduled_lt _ _ hpos (BitVec.lt_def.mp hb) n

/-- The calculator and the distribution manager keep the bound at every height. -/
theorem emissionBounded_of_interval {c : RewardCalculator} {s : RewardDistributionManager}
    (hc : c.config.halvingInterval ≠ 0) (hs : s.halvingInterval ≠ 0) {n : Nat}
    (hn : n ≤ 2 ^ 64) :
    EmissionBounded c.calculateBaseReward c.config.halvingInterval c.config.baseBlockReward n ∧
      EmissionBounded s.calculateBlockReward s.halvingInterval s.baseBlockReward n :=
  ⟨emissionBounded_halvedReward hc _ hn, emissionBounded_halvedReward hs _ hn⟩

/-- The default configuration, and a manager that pays one MIST for one block, over all
heights. -/
theorem emissionBounded_of_default :
    EmissionBounded (RewardCalculator.mk .default).calculateBaseReward 210_000
        50_000_000_000 (2 ^ 64) ∧
      EmissionBounded (RewardDistributionManager.new 1 1).calculateBlockReward 1 1 (2 ^ 64) :=
  emissionBounded_of_interval (c := ⟨.default⟩) (s := .new 1 1) (by decide) (by decide)
    (Nat.le_refl _)

end SilverPow.Rewards
