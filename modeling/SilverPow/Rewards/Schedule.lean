import Mathlib.Algebra.BigOperators.Group.Finset.Basic
import SilverPow.Config

/-!
# The halving schedule

The base reward halves every `halving_interval` blocks and is zero after 64 halvings.
`src/rewards.rs` and `src/reward_distribution.rs` each have a copy of the rule. What all
blocks below a height pay together is a geometric sum: it stays below twice what the
first interval pays.
-/

namespace SilverPow.Rewards

open SilverPow.Base

/-- The rule of both copies. A zero interval aborts the division. -/
def halvedReward (halvingInterval : U64) (baseBlockReward : U128) (blockHeight : U64) :
    Option U128 := do
  let halvings ← Word.checkedDiv blockHeight halvingInterval
  return if 64 ≤ halvings then 0 else baseBlockReward >>> halvings.toNat

/-- The rewards of a rule for all heights below `n`, added up. -/
def emittedBy (reward : U64 → Option U128) : Nat → Option Nat
  | 0 => some 0
  | n + 1 => do
    let total ← emittedBy reward n
    let amount ← reward (BitVec.ofNat 64 n)
    return total + amount.toNat

/-- `RewardCalculator`, `src/rewards.rs:33–40`. -/
structure RewardCalculator where
  config : PoWConfig

namespace RewardCalculator

/-- `RewardCalculator::calculate_base_reward`, `src/rewards.rs:43–53`. -/
def calculateBaseReward (c : RewardCalculator) (blockHeight : U64) : Option U128 :=
  halvedReward c.config.halvingInterval c.config.baseBlockReward blockHeight

/-- The base rewards of all heights below `n`, added up. -/
def emitted (c : RewardCalculator) : Nat → Option Nat
  | 0 => some 0
  | n + 1 => do
    let total ← c.emitted n
    let reward ← c.calculateBaseReward (BitVec.ofNat 64 n)
    return total + reward.toNat

end RewardCalculator

/-- The value of the rule at a height. -/
def scheduled (interval base height : Nat) : Nat :=
  if 64 ≤ height / interval then 0 else base / 2 ^ (height / interval)

/-- With an interval, the rule computes the scheduled value. -/
theorem halvedReward_eq {interval : U64} (base : U128) (height : U64) (hi : interval ≠ 0) :
    ∃ reward, halvedReward interval base height = some reward ∧
      reward.toNat = scheduled interval.toNat base.toNat height.toNat := by
  refine ⟨_, by rw [halvedReward, Word.checkedDiv, if_neg hi]; rfl, ?_⟩
  have hd : (height / interval).toNat = height.toNat / interval.toNat := BitVec.toNat_udiv
  unfold scheduled
  have hle : 64 ≤ height / interval ↔ 64 ≤ (height / interval).toNat := BitVec.le_def
  rw [← hd]
  by_cases h : 64 ≤ height / interval
  · rw [if_pos h, if_pos (hle.mp h)]
    rfl
  · rw [if_neg h, if_neg (mt hle.mpr h), BitVec.toNat_ushiftRight, Nat.shiftRight_eq_div_pow]

/-- What the rule pays below a height is the sum of the scheduled values. -/
theorem emittedBy_halvedReward {interval : U64} (base : U128) (hi : interval ≠ 0) {n : Nat}
    (hn : n ≤ 2 ^ 64) :
    emittedBy (halvedReward interval base) n =
      some (∑ h ∈ Finset.range n, scheduled interval.toNat base.toNat h) := by
  induction n with
  | zero => rfl
  | succ n ih =>
    obtain ⟨reward, hr, hv⟩ := halvedReward_eq base (BitVec.ofNat 64 n) hi
    rw [emittedBy, ih (by omega), hr, Finset.sum_range_succ]
    rw [BitVec.toNat_ofNat, Nat.mod_eq_of_lt (by omega)] at hv
    rw [← hv]
    rfl

/-- The calculator adds up its own rule. -/
theorem RewardCalculator.emitted_eq_emittedBy (c : RewardCalculator) (n : Nat) :
    c.emitted n = emittedBy c.calculateBaseReward n := by
  induction n with
  | zero => rfl
  | succ n ih => rw [emitted, emittedBy, ih]

/-- The rewards below a height are the sum of the scheduled values. -/
theorem RewardCalculator.emitted_eq_sum (c : RewardCalculator)
    (hi : c.config.halvingInterval ≠ 0) {n : Nat} (hn : n ≤ 2 ^ 64) :
    c.emitted n = some (∑ h ∈ Finset.range n,
      scheduled c.config.halvingInterval.toNat c.config.baseBlockReward.toNat h) :=
  (c.emitted_eq_emittedBy n).trans (emittedBy_halvedReward c.config.baseBlockReward hi hn)

section Sum

variable (interval base : Nat)

/-- During the first interval every block pays the base reward. -/
theorem sum_scheduled_of_le {n : Nat} (hn : n ≤ interval) :
    ∑ h ∈ Finset.range n, scheduled interval base h = n * base := by
  have hs : ∀ h ∈ Finset.range n, scheduled interval base h = base := by
    intro h hh
    rw [scheduled, Nat.div_eq_of_lt (lt_of_lt_of_le (Finset.mem_range.mp hh) hn), pow_zero,
      Nat.div_one, if_neg (by omega)]
  rw [Finset.sum_const_nat hs, Finset.card_range]

private theorem scheduled_le (height : Nat) :
    scheduled interval base height ≤ base / 2 ^ (height / interval) := by
  unfold scheduled
  split
  · exact Nat.zero_le _
  · exact Nat.le_refl _

/-- What was paid, and what the rest of the interval and all later ones can still pay, is
within twice the first interval. -/
private theorem sum_scheduled_add_rest_le (hi : 0 < interval) (n : Nat) :
    ∑ h ∈ Finset.range n, scheduled interval base h +
      (2 * interval - n % interval) * (base / 2 ^ (n / interval)) ≤ 2 * interval * base := by
  induction n with
  | zero => simp
  | succ n ih =>
    have hp := scheduled_le interval base n
    have hr : n % interval < interval := Nat.mod_lt n hi
    have hn : n % interval + interval * (n / interval) = n := Nat.mod_add_div n interval
    generalize n / interval = q, n % interval = r at ih hp hr hn
    rw [Finset.sum_range_succ]
    by_cases hl : r + 1 < interval
    · obtain ⟨hd, hm⟩ := (Nat.div_mod_unique (a := n + 1) (d := q) hi).mpr ⟨by omega, hl⟩
      rw [hd, hm]
      have hs : (2 * interval - r) * (base / 2 ^ q) =
          (2 * interval - (r + 1)) * (base / 2 ^ q) + base / 2 ^ q := by
        rw [← Nat.succ_mul]
        congr 1
        omega
      omega
    -- The interval ends: its successor pays half as much.
    · obtain ⟨hd, hm⟩ := (Nat.div_mod_unique (a := n + 1) (d := q + 1) (c := 0) hi).mpr
        ⟨by rw [Nat.mul_succ]; omega, hi⟩
      rw [hd, hm, Nat.sub_zero, pow_succ, ← Nat.div_div_eq_div_mul]
      have hh : 2 * interval * (base / 2 ^ q / 2) ≤ interval * (base / 2 ^ q) := by
        rw [Nat.mul_comm 2, Nat.mul_assoc]
        exact Nat.mul_le_mul_left _ (Nat.mul_div_le _ 2)
      have hs : (2 * interval - r) * (base / 2 ^ q) =
          interval * (base / 2 ^ q) + base / 2 ^ q := by
        rw [← Nat.succ_mul]
        congr 1
        omega
      omega

/-- All blocks together pay at most twice what the first interval pays. -/
theorem sum_scheduled_le (hi : 0 < interval) (n : Nat) :
    ∑ h ∈ Finset.range n, scheduled interval base h ≤ 2 * interval * base :=
  (Nat.le_add_right _ _).trans (sum_scheduled_add_rest_le interval base hi n)

/-- The bound is never reached: as long as a height still pays something, the rest of its
interval pays more than the height itself. -/
theorem sum_scheduled_lt (hi : 0 < interval) (hb : 0 < base) (n : Nat) :
    ∑ h ∈ Finset.range n, scheduled interval base h < 2 * interval * base := by
  induction n with
  | zero => exact Nat.mul_pos (Nat.mul_pos Nat.two_pos hi) hb
  | succ n ih =>
    have hp := scheduled_le interval base n
    have hsum := sum_scheduled_add_rest_le interval base hi n
    have hr : n % interval < interval := Nat.mod_lt n hi
    rw [Finset.sum_range_succ]
    rcases Nat.eq_zero_or_pos (base / 2 ^ (n / interval)) with hz | hz
    · omega
    · have hrest : 2 * (base / 2 ^ (n / interval)) ≤
          (2 * interval - n % interval) * (base / 2 ^ (n / interval)) :=
        Nat.mul_le_mul_right _ (by omega)
      omega

end Sum

end SilverPow.Rewards
