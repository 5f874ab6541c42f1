import Mathlib.Algebra.BigOperators.Fin
import Mathlib.Algebra.Order.BigOperators.Group.Finset
import Mathlib.Algebra.Order.Floor.Semifield
import Mathlib.Data.Rat.Floor
import SilverPow.Mining.Pool

/-!
# Payouts in proportion to shares

`src/mining_pool.rs:433–465`: a miner's part of a block reward is the ratio of two sums
of difficulties. Both sums wrap, each by itself, so the ratios of all miners add up to at
most one only while what is left of the miners' sums fits in what is left of the total.
The floating-point ratio and product are read as exact rationals.
-/

namespace SilverPow.Mining

open SilverPow.Base MiningPool

/-- `x as u128` of a rational that is not negative: truncated, and clamped. -/
def truncU128 (x : ℚ) : U128 := BitVec.ofNat 128 (min ⌊x⌋₊ (2 ^ 128 - 1))

namespace MiningPool

/-- The reward without the pool's fee, `src/mining_pool.rs:457–458`. -/
def rewardAfterFee (s : MiningPool) (totalBlockReward : U128) : U128 :=
  let poolFee := totalBlockReward * s.config.poolFeePercentage.setWidth 128 / 100
  totalBlockReward - poolFee

/-- `calculate_miner_payout`, `src/mining_pool.rs:433–465`. -/
def calculateMinerPayout (s : MiningPool) (minerId : Bytes) (totalBlockReward : U128) :
    Except String U128 :=
  match validateMinerAddress minerId with
  | .error e => .error e
  | .ok () =>
    let shares := s.getMinerShares minerId
    if shares = [] then .ok 0
    else
      let totalShares := (s.shares.map (·.difficulty)).sum
      if totalShares = 0 then .ok 0
      else
        let minerShareDifficulty := (shares.map (·.difficulty)).sum
        let minerPercentage : ℚ := minerShareDifficulty.toNat / totalShares.toNat
        .ok (truncU128 ((s.rewardAfterFee totalBlockReward).toNat * minerPercentage))

/-- What a miner is paid; nothing where the calculation fails. -/
def payout (s : MiningPool) (totalBlockReward : U128) (minerId : Bytes) : Nat :=
  match s.calculateMinerPayout minerId totalBlockReward with
  | .ok amount => amount.toNat
  | .error _ => 0

/-- The miners with shares that can be paid. -/
def payees (s : MiningPool) : Finset Bytes :=
  (s.shares.map (·.minerId)).toFinset.filter fun id ↦ validateMinerAddress id = .ok ()

end MiningPool

/-- True sum of the difficulties of some shares. -/
def work (shares : List MinerShare) : Nat := (shares.map (·.difficulty.toNat)).sum

/-- The true value of the reward without the fee. -/
def distributable (s : MiningPool) (totalBlockReward : U128) : Nat :=
  totalBlockReward.toNat - totalBlockReward.toNat * s.config.poolFeePercentage.toNat / 100

/-- No set of miners is paid more than the reward without the fee, and no miner is. -/
def PayoutsBounded (s : MiningPool) : Prop :=
  ∀ totalBlockReward : U128, totalBlockReward.toNat < 2 ^ 120 →
    ∀ ids : Finset Bytes, (∀ id ∈ ids, validateMinerAddress id = .ok ()) →
      ∑ id ∈ ids, s.payout totalBlockReward id ≤ distributable s totalBlockReward ∧
        ∀ id ∈ ids, s.payout totalBlockReward id ≤ distributable s totalBlockReward

/-! ### One payout -/

/-- Parts in proportion to what sums to at most the whole sum to at most the amount. -/
theorem sum_mul_div_le {ι : Type} (ids : Finset ι) (m : ι → Nat) (amount : Nat) {whole : Nat}
    (hw : whole ≠ 0) (h : ∑ i ∈ ids, m i ≤ whole) :
    ∑ i ∈ ids, amount * m i / whole ≤ amount := by
  have hmul : (∑ i ∈ ids, amount * m i / whole) * whole ≤ amount * whole := by
    calc (∑ i ∈ ids, amount * m i / whole) * whole
        = ∑ i ∈ ids, amount * m i / whole * whole := Finset.sum_mul _ _ _
      _ ≤ ∑ i ∈ ids, amount * m i := Finset.sum_le_sum fun i _ ↦ Nat.div_mul_le_self _ _
      _ = amount * ∑ i ∈ ids, m i := (Finset.mul_sum _ _ _).symm
      _ ≤ amount * whole := Nat.mul_le_mul_left _ h
  exact Nat.le_of_mul_le_mul_right hmul (Nat.pos_of_ne_zero hw)

/-- The truncated product with a ratio is a natural division. -/
theorem toNat_truncU128 (a m t : Nat) :
    (truncU128 (a * ((m : ℚ) / t))).toNat = min (a * m / t) (2 ^ 128 - 1) := by
  have hf : ⌊(a : ℚ) * ((m : ℚ) / t)⌋₊ = a * m / t := by
    rw [← mul_div_assoc, ← Nat.cast_mul, Nat.floor_div_eq_div]
  rw [truncU128, hf, BitVec.toNat_ofNat, Nat.mod_eq_of_lt (by omega)]

/-- A wrapping sum of difficulties. -/
theorem toNat_sum_difficulty (shares : List MinerShare) :
    (shares.map MinerShare.difficulty).sum.toNat = work shares % 2 ^ 64 := by
  rw [Word.toNat_sum, List.map_map]
  rfl

/-- With a fee of at most ten percent, nothing wraps in the reward without the fee. -/
theorem toNat_rewardAfterFee {s : MiningPool} (hfee : s.config.poolFeePercentage ≤ 10)
    {totalBlockReward : U128} (hr : totalBlockReward.toNat < 2 ^ 120) :
    (s.rewardAfterFee totalBlockReward).toNat = distributable s totalBlockReward := by
  have hf : s.config.poolFeePercentage.toNat ≤ 10 := BitVec.le_def.mp hfee
  have hle : totalBlockReward.toNat * s.config.poolFeePercentage.toNat ≤
      totalBlockReward.toNat * 10 := Nat.mul_le_mul_left _ hf
  have hw : (s.config.poolFeePercentage.setWidth 128).toNat =
      s.config.poolFeePercentage.toNat := by
    rw [BitVec.toNat_setWidth, Nat.mod_eq_of_lt (by omega)]
  have hv : (totalBlockReward * s.config.poolFeePercentage.setWidth 128 / 100).toNat =
      totalBlockReward.toNat * s.config.poolFeePercentage.toNat / 100 := by
    rw [BitVec.toNat_udiv, BitVec.toNat_mul, hw, Nat.mod_eq_of_lt (by omega)]
    rfl
  rw [rewardAfterFee, BitVec.toNat_sub_of_le, hv, distributable]
  rw [BitVec.le_def, hv]
  omega

/-- A valid miner is paid its part of the reward, computed from the wrapped sums. -/
theorem payout_eq {s : MiningPool} (hfee : s.config.poolFeePercentage ≤ 10)
    {totalBlockReward : U128} (hr : totalBlockReward.toNat < 2 ^ 120) {id : Bytes}
    (hid : validateMinerAddress id = .ok ()) :
    s.payout totalBlockReward id =
      min (distributable s totalBlockReward * (work (s.getMinerShares id) % 2 ^ 64) /
        (work s.shares % 2 ^ 64)) (2 ^ 128 - 1) := by
  rw [payout, calculateMinerPayout, hid]
  by_cases hs : s.getMinerShares id = []
  · simp [hs, work]
  · have ht := toNat_sum_difficulty s.shares
    by_cases hz : (s.shares.map (·.difficulty)).sum = 0
    · rw [hz] at ht
      simp only [if_neg hs, if_pos hz, show work s.shares % 2 ^ 64 = 0 from ht.symm, Nat.div_zero]
      rfl
    · simp only [if_neg hs, if_neg hz, toNat_truncU128, ht, toNat_sum_difficulty,
        toNat_rewardAfterFee hfee hr]

/-! ### All payouts -/

/-- A miner without shares that can be paid has no work. -/
theorem mem_payees_of_work {s : MiningPool} {id : Bytes} (hid : validateMinerAddress id = .ok ())
    (hw : work (s.getMinerShares id) % 2 ^ 64 ≠ 0) : id ∈ s.payees := by
  rw [payees, Finset.mem_filter, List.mem_toFinset, List.mem_map]
  refine ⟨?_, hid⟩
  cases hs : s.getMinerShares id with
  | nil => simp [hs, work] at hw
  | cons share shares =>
    have hm : share ∈ s.getMinerShares id := hs ▸ List.mem_cons_self
    rw [getMinerShares, List.mem_filter] at hm
    exact ⟨share, hm.1, by simpa using hm.2⟩

/-- What fits in the total is paid out of the reward. -/
theorem payoutsBounded_of_le {s : MiningPool} (hfee : s.config.poolFeePercentage ≤ 10)
    (h : work s.shares % 2 ^ 64 = 0 ∨
      ∑ id ∈ s.payees, work (s.getMinerShares id) % 2 ^ 64 ≤ work s.shares % 2 ^ 64) :
    PayoutsBounded s := by
  intro totalBlockReward hr
  have hsum (ids : Finset Bytes) (hids : ∀ id ∈ ids, validateMinerAddress id = .ok ()) :
      ∑ id ∈ ids, s.payout totalBlockReward id ≤ distributable s totalBlockReward := by
    calc ∑ id ∈ ids, s.payout totalBlockReward id
        ≤ ∑ id ∈ ids, distributable s totalBlockReward *
            (work (s.getMinerShares id) % 2 ^ 64) / (work s.shares % 2 ^ 64) := by
          apply Finset.sum_le_sum
          intro id hid
          rw [payout_eq hfee hr (hids id hid)]
          exact Nat.min_le_left _ _
      _ ≤ distributable s totalBlockReward := by
          by_cases hz : work s.shares % 2 ^ 64 = 0
          · simp only [hz, Nat.div_zero, Finset.sum_const_zero]
            exact Nat.zero_le _
          · apply sum_mul_div_le _ _ _ hz
            refine le_trans ?_ (h.resolve_left hz)
            exact Finset.sum_le_sum_of_ne_zero fun id hid hw ↦ mem_payees_of_work (hids id hid) hw
  intro ids hids
  refine ⟨hsum ids hids, fun id hid ↦ ?_⟩
  have h1 := hsum {id} fun a ha ↦ Finset.mem_singleton.mp ha ▸ hids id hid
  rwa [Finset.sum_singleton] at h1

/-- With a fee of at most ten percent, no payouts exceed the reward without the fee exactly
if the total wraps to zero, or the wrapped sums of the miners fit in the wrapped total. -/
theorem payoutsBounded_iff {s : MiningPool} (hfee : s.config.poolFeePercentage ≤ 10) :
    PayoutsBounded s ↔ work s.shares % 2 ^ 64 = 0 ∨
      ∑ id ∈ s.payees, work (s.getMinerShares id) % 2 ^ 64 ≤ work s.shares % 2 ^ 64 := by
  refine ⟨fun h ↦ ?_, payoutsBounded_of_le hfee⟩
  rw [Classical.or_iff_not_imp_left]
  intro hz
  -- A hundred times the wrapped total pays every miner a whole multiple of its sum.
  have ht : work s.shares % 2 ^ 64 < 2 ^ 64 := Nat.mod_lt _ (by omega)
  have hf : s.config.poolFeePercentage.toNat ≤ 10 := BitVec.le_def.mp hfee
  have hr : (BitVec.ofNat 128 (100 * (work s.shares % 2 ^ 64))).toNat =
      100 * (work s.shares % 2 ^ 64) := by
    rw [BitVec.toNat_ofNat, Nat.mod_eq_of_lt (by omega)]
  have hd : distributable s (BitVec.ofNat 128 (100 * (work s.shares % 2 ^ 64))) =
      (100 - s.config.poolFeePercentage.toNat) * (work s.shares % 2 ^ 64) := by
    rw [distributable, hr, Nat.mul_assoc, Nat.mul_div_cancel_left _ (by omega), Nat.sub_mul,
      Nat.mul_comm s.config.poolFeePercentage.toNat]
  have hpay (id : Bytes) (hid : id ∈ s.payees) :
      s.payout (BitVec.ofNat 128 (100 * (work s.shares % 2 ^ 64))) id =
        (100 - s.config.poolFeePercentage.toNat) * (work (s.getMinerShares id) % 2 ^ 64) := by
    have hm : work (s.getMinerShares id) % 2 ^ 64 < 2 ^ 64 := Nat.mod_lt _ (by omega)
    have hle : (100 - s.config.poolFeePercentage.toNat) * (work (s.getMinerShares id) % 2 ^ 64) ≤
        100 * 2 ^ 64 := Nat.mul_le_mul (by omega) hm.le
    rw [payout_eq hfee (by omega) (Finset.mem_filter.mp hid).2, hd, Nat.mul_right_comm,
      Nat.mul_div_cancel _ (Nat.pos_of_ne_zero hz), Nat.min_eq_left (by omega)]
  have hsum := (h (BitVec.ofNat 128 (100 * (work s.shares % 2 ^ 64))) (by omega) s.payees
    fun id hid ↦ (Finset.mem_filter.mp hid).2).1
  rw [Finset.sum_congr rfl hpay, ← Finset.mul_sum, hd] at hsum
  exact Nat.le_of_mul_le_mul_left hsum (by omega)

/-- The true sums of different miners fit in the true total. -/
theorem sum_work_le (ids : Finset Bytes) (shares : List MinerShare) :
    ∑ id ∈ ids, work (shares.filter (·.minerId == id)) ≤ work shares := by
  induction shares with
  | nil => simp [work]
  | cons share shares ih =>
    have hone (id : Bytes) : work ((share :: shares).filter (·.minerId == id)) =
        (if id = share.minerId then share.difficulty.toNat else 0) +
          work (shares.filter (·.minerId == id)) := by
      by_cases h : id = share.minerId
      · simp [work, h]
      · simp [work, h, Ne.symm h]
    have hle : (∑ id ∈ ids, if id = share.minerId then share.difficulty.toNat else 0) ≤
        share.difficulty.toNat := by
      rw [Finset.sum_ite_eq']
      split
      · exact Nat.le_refl _
      · exact Nat.zero_le _
    rw [Finset.sum_congr rfl fun id _ ↦ hone id, Finset.sum_add_distrib]
    exact Nat.add_le_add hle ih

/-- While the difficulties truly sum to a word, no payouts exceed the reward. -/
theorem payoutsBounded_of_lt {s : MiningPool} (hfee : s.config.poolFeePercentage ≤ 10)
    (h : work s.shares < 2 ^ 64) : PayoutsBounded s := by
  refine payoutsBounded_of_le hfee (.inr ?_)
  rw [Nat.mod_eq_of_lt h]
  exact (Finset.sum_le_sum fun id _ ↦ Nat.mod_le _ _).trans (sum_work_le s.payees s.shares)

/-- A share of a miner whose id is one byte repeated. -/
def shareOf (byte : U8) (difficulty : U64) : MinerShare :=
  ⟨List.replicate 20 byte, [], 7, 0, List.replicate 64 0, difficulty, 5, false, 0, 100⟩

/-- Two miners whose difficulties sum to 2⁶⁴ + 1. -/
def wrappedEvents : List Event :=
  [⟨.submitShare (shareOf 1 (1 <<< 63)), 5⟩, ⟨.submitShare (shareOf 2 ((1 <<< 63) + 1)), 6⟩]

/-- The total wraps to 1, so each miner alone is paid more than the reward of 100. -/
theorem payout_exceeds_reward :
    PoolRun .new wrappedEvents (wrappedEvents.foldl step (.new .new)) ∧
      distributable (wrappedEvents.foldl step (.new .new)) 100 = 99 ∧
      (wrappedEvents.foldl step (.new .new)).payout 100 (List.replicate 20 1) = 99 * 2 ^ 63 ∧
      ¬PayoutsBounded (wrappedEvents.foldl step (.new .new)) := by
  have hd : distributable (wrappedEvents.foldl step (.new .new)) 100 = 99 := by decide +kernel
  have hp : (wrappedEvents.foldl step (.new .new)).payout 100 (List.replicate 20 1) =
      99 * 2 ^ 63 := by
    rw [payout_eq (by decide +kernel) (by decide) (by decide), hd]
    decide +kernel
  refine ⟨Run.foldl _ _ _, hd, hp, fun h ↦ ?_⟩
  have hle := (h 100 (by decide) {List.replicate 20 1} (by decide)).2 _
    (Finset.mem_singleton_self _)
  rw [hp, hd] at hle
  omega

/-- A pool with one share of difficulty 10,000. -/
theorem payoutsBounded_iff_one_share :
    let s := (MiningPool.new .new).acceptShare (shareOf 1 10_000) 5
    PayoutsBounded s ↔ work s.shares % 2 ^ 64 = 0 ∨
      ∑ id ∈ s.payees, work (s.getMinerShares id) % 2 ^ 64 ≤ work s.shares % 2 ^ 64 :=
  payoutsBounded_iff (by decide)

end SilverPow.Mining
