import SilverPow.Rewards.Distribution

/-!
# The heights at which the reward halves

`src/rewards.rs:77–89` and `src/reward_distribution.rs:295–307`: both copies of the schedule tell
which blocks halve the reward, the next of them, and how far it is. The rewards of the same copy
agree with that: they are constant up to the next halving, and half as much from there on.
-/

namespace SilverPow.Rewards

open SilverPow.Base

/-- The rule of both copies for the blocks that halve the reward. -/
def isHalvingHeight (halvingInterval blockHeight : U64) : Bool :=
  0 < blockHeight ∧ Word.isMultipleOf blockHeight halvingInterval

/-- The rule of both copies for the next halving. A zero interval and an overflow abort. -/
def nextHalvingHeight (halvingInterval currentHeight : U64) : Option U64 := do
  let halvings ← Word.checkedDiv currentHeight halvingInterval
  let next ← Word.checkedAdd halvings 1
  Word.checkedMul next halvingInterval

/-- The rule of both copies for the distance of the next halving. -/
def blocksUntil (halvingInterval currentHeight : U64) : Option U64 := do
  let next ← nextHalvingHeight halvingInterval currentHeight
  Word.checkedSub next currentHeight

namespace RewardCalculator

variable (c : RewardCalculator)

/-- `RewardCalculator::is_halving_block`, `src/rewards.rs:77–79`. -/
def isHalvingBlock (blockHeight : U64) : Bool :=
  isHalvingHeight c.config.halvingInterval blockHeight

/-- `RewardCalculator::get_next_halving_height`, `src/rewards.rs:82–84`. -/
def getNextHalvingHeight (currentHeight : U64) : Option U64 :=
  nextHalvingHeight c.config.halvingInterval currentHeight

/-- `RewardCalculator::blocks_until_halving`, `src/rewards.rs:87–89`. -/
def blocksUntilHalving (currentHeight : U64) : Option U64 :=
  blocksUntil c.config.halvingInterval currentHeight

end RewardCalculator

namespace RewardDistributionManager

variable (s : RewardDistributionManager)

/-- `RewardDistributionManager::is_halving_block`, `src/reward_distribution.rs:295–297`. -/
def isHalvingBlock (blockHeight : U64) : Bool := isHalvingHeight s.halvingInterval blockHeight

/-- `RewardDistributionManager::get_next_halving_height`,
`src/reward_distribution.rs:300–302`. -/
def getNextHalvingHeight (currentHeight : U64) : Option U64 :=
  nextHalvingHeight s.halvingInterval currentHeight

/-- `RewardDistributionManager::blocks_until_halving`, `src/reward_distribution.rs:305–307`. -/
def blocksUntilHalving (currentHeight : U64) : Option U64 :=
  blocksUntil s.halvingInterval currentHeight

end RewardDistributionManager

/-- The functions of one copy. -/
structure HalvingSchedule where
  halvingInterval : U64
  blockReward : U64 → Option U128
  isHalvingBlock : U64 → Bool
  getNextHalvingHeight : U64 → Option U64
  blocksUntilHalving : U64 → Option U64

/-- The functions of the calculator. -/
def RewardCalculator.schedule (c : RewardCalculator) : HalvingSchedule where
  halvingInterval := c.config.halvingInterval
  blockReward := c.calculateBaseReward
  isHalvingBlock := c.isHalvingBlock
  getNextHalvingHeight := c.getNextHalvingHeight
  blocksUntilHalving := c.blocksUntilHalving

/-- The functions of the distribution manager. -/
def RewardDistributionManager.schedule (s : RewardDistributionManager) : HalvingSchedule where
  halvingInterval := s.halvingInterval
  blockReward := s.calculateBlockReward
  isHalvingBlock := s.isHalvingBlock
  getNextHalvingHeight := s.getNextHalvingHeight
  blocksUntilHalving := s.blocksUntilHalving

/-- The rules of both copies. -/
def HalvingSchedule.rules (halvingInterval : U64) (baseReward : U128) : HalvingSchedule where
  halvingInterval
  blockReward := halvedReward halvingInterval baseReward
  isHalvingBlock := isHalvingHeight halvingInterval
  getNextHalvingHeight := nextHalvingHeight halvingInterval
  blocksUntilHalving := blocksUntil halvingInterval

/-- From a height on, the functions describe one schedule up to the next halving: it is the
first halving after the height and at most an interval away, the reward is constant up to it,
and halved there, or zero after the last of 63 halvings. -/
structure HalvingSchedule.CoherentAt (f : HalvingSchedule) (h n : U64) : Prop where
  next : f.getNextHalvingHeight h = some n
  lt : h < n
  le : n.toNat ≤ h.toNat + f.halvingInterval.toNat
  distance : ∃ blocks, f.blocksUntilHalving h = some blocks ∧
    blocks.toNat = n.toNat - h.toNat
  halves : f.isHalvingBlock n = true
  first : ∀ m, h < m → m < n → f.isHalvingBlock m = false
  rewards : ∃ reward halved, (∀ m, h ≤ m → m < n → f.blockReward m = some reward) ∧
    f.blockReward n = some halved ∧
    halved.toNat = if h.toNat / f.halvingInterval.toNat < 63 then reward.toNat / 2 else 0

/-- The height of the next halving is a word. -/
def HalvingSchedule.Fits (f : HalvingSchedule) (h : U64) : Prop :=
  (h.toNat / f.halvingInterval.toNat + 1) * f.halvingInterval.toNat < 2 ^ 64

instance (f : HalvingSchedule) (h : U64) : Decidable (f.Fits h) :=
  inferInstanceAs (Decidable (_ < _))

/-! ### One interval -/

section Interval

variable {interval h m : Nat}

/-- The heights of one interval have the same number of halvings before them. -/
theorem div_eq_of_mem_interval (hi : 0 < interval) (hle : h ≤ m)
    (hlt : m < (h / interval + 1) * interval) : m / interval = h / interval := by
  have hup : m / interval < h / interval + 1 := (Nat.div_lt_iff_lt_mul hi).mpr hlt
  have hdown : h / interval ≤ m / interval := Nat.div_le_div_right hle
  omega

/-- Between a height and the next multiple of the interval there is no other multiple. -/
theorem mod_ne_zero_of_mem_interval (hi : 0 < interval) (hle : h < m)
    (hlt : m < (h / interval + 1) * interval) : m % interval ≠ 0 := by
  intro hm
  have hdiv := Nat.div_add_mod m interval
  have hold := Nat.div_mul_le_self h interval
  rw [div_eq_of_mem_interval hi hle.le hlt, hm, Nat.mul_comm] at hdiv
  omega

/-- At the end of an interval the scheduled value is halved. -/
theorem scheduled_next (base : Nat) (hi : 0 < interval) :
    scheduled interval base ((h / interval + 1) * interval) =
      if h / interval < 63 then scheduled interval base h / 2 else 0 := by
  rw [scheduled, scheduled, Nat.mul_div_cancel _ hi]
  by_cases hlast : h / interval < 63
  · rw [if_pos hlast, if_neg (by omega), if_neg (by omega), pow_succ, Nat.div_div_eq_div_mul]
  · rw [if_neg hlast, if_pos (by omega)]

end Interval

/-! ### Both copies -/

section Rules

variable {halvingInterval : U64}

theorem isHalvingHeight_iff {blockHeight : U64} :
    isHalvingHeight halvingInterval blockHeight = true ↔
      0 < blockHeight.toNat ∧ blockHeight.toNat % halvingInterval.toNat = 0 := by
  have hmod : blockHeight % halvingInterval = 0 ↔
      blockHeight.toNat % halvingInterval.toNat = 0 := by
    rw [← BitVec.toNat_inj, BitVec.toNat_umod]
    rfl
  rw [isHalvingHeight, decide_eq_true_iff, Word.isMultipleOf, decide_eq_true_iff, hmod]
  rfl

/-- Where it is a word, the next halving is at the end of the interval. -/
theorem nextHalvingHeight_eq (hi : halvingInterval ≠ 0) {h : U64}
    (hfits : (h.toNat / halvingInterval.toNat + 1) * halvingInterval.toNat < 2 ^ 64) :
    ∃ n, nextHalvingHeight halvingInterval h = some n ∧
      n.toNat = (h.toNat / halvingInterval.toNat + 1) * halvingInterval.toNat := by
  have hpos : 0 < halvingInterval.toNat := BitVec.toNat_pos_of_ne_zero hi
  have hdiv : (h / halvingInterval).toNat = h.toNat / halvingInterval.toNat :=
    BitVec.toNat_udiv
  have hadd : (h / halvingInterval).toNat + (1 : U64).toNat < 2 ^ 64 := by
    rw [hdiv]
    exact (Nat.le_mul_of_pos_right _ hpos).trans_lt hfits
  have hnext : (h / halvingInterval + 1).toNat = h.toNat / halvingInterval.toNat + 1 := by
    rw [BitVec.toNat_add, Nat.mod_eq_of_lt hadd, hdiv]
    rfl
  refine ⟨(h / halvingInterval + 1) * halvingInterval, ?_, ?_⟩
  · rw [nextHalvingHeight, Word.checkedDiv, if_neg hi]
    simp only [Option.bind_eq_bind, Option.bind_some, Word.checkedAdd_of_lt hadd]
    exact Word.checkedMul_of_lt (by rwa [hnext])
  · rw [BitVec.toNat_mul, hnext, Nat.mod_eq_of_lt hfits]

/-- The heights of one interval have the same reward. -/
theorem halvedReward_congr (hi : halvingInterval ≠ 0) (baseReward : U128) {h m : U64}
    (hdiv : m.toNat / halvingInterval.toNat = h.toNat / halvingInterval.toNat) :
    halvedReward halvingInterval baseReward m = halvedReward halvingInterval baseReward h := by
  have hword : m / halvingInterval = h / halvingInterval := by
    rw [← BitVec.toNat_inj, BitVec.toNat_udiv, BitVec.toNat_udiv, hdiv]
  rw [halvedReward, halvedReward, Word.checkedDiv, Word.checkedDiv, if_neg hi, if_neg hi, hword]

/-- The rules describe one schedule. -/
theorem coherentAt_rules (hi : halvingInterval ≠ 0) (baseReward : U128) {h : U64}
    (hfits : (HalvingSchedule.rules halvingInterval baseReward).Fits h) :
    ∃ n, (HalvingSchedule.rules halvingInterval baseReward).CoherentAt h n := by
  have hpos : 0 < halvingInterval.toNat := BitVec.toNat_pos_of_ne_zero hi
  obtain ⟨n, hnext, hn⟩ := nextHalvingHeight_eq hi hfits
  have hlt : h.toNat < n.toNat := by
    rw [hn]
    exact (Nat.div_lt_iff_lt_mul hpos).mp (Nat.lt_succ_self _)
  refine ⟨n, hnext, BitVec.lt_def.mpr hlt, ?_, ?_, ?_, ?_, ?_⟩
  · have hle := Nat.div_mul_le_self h.toNat halvingInterval.toNat
    rw [hn, Nat.succ_mul]
    exact Nat.add_le_add_right hle _
  · refine ⟨n - h, ?_, BitVec.toNat_sub_of_le (BitVec.le_def.mpr hlt.le)⟩
    change blocksUntil halvingInterval h = some (n - h)
    rw [blocksUntil, hnext]
    exact Word.checkedSub_of_le hlt.le
  · refine isHalvingHeight_iff.mpr ⟨Nat.zero_lt_of_lt hlt, ?_⟩
    rw [hn, Nat.mul_mod_left]
  · intro m hm hmn
    rw [BitVec.lt_def] at hm hmn
    rw [← Bool.not_eq_true]
    intro hmultiple
    rw [hn] at hmn
    exact mod_ne_zero_of_mem_interval hpos hm hmn (isHalvingHeight_iff.mp hmultiple).2
  · obtain ⟨reward, hr, hv⟩ := halvedReward_eq baseReward h hi
    obtain ⟨halved, hr', hv'⟩ := halvedReward_eq baseReward n hi
    refine ⟨reward, halved, ?_, hr', ?_⟩
    · intro m hm hmn
      rw [BitVec.le_def] at hm
      rw [BitVec.lt_def, hn] at hmn
      exact (halvedReward_congr hi baseReward (div_eq_of_mem_interval hpos hm hmn)).trans hr
    · rw [hv', hv, hn]
      exact scheduled_next baseReward.toNat hpos

end Rules

/-- In the calculator and in the distribution manager, the functions describe one schedule at
every height whose next halving is a word. -/
theorem schedules_coherent {c : RewardCalculator} {s : RewardDistributionManager}
    (hc : c.config.halvingInterval ≠ 0) (hs : s.halvingInterval ≠ 0) {h : U64}
    (hcfits : c.schedule.Fits h) (hsfits : s.schedule.Fits h) :
    (∃ n, c.schedule.CoherentAt h n) ∧ ∃ n, s.schedule.CoherentAt h n :=
  ⟨coherentAt_rules hc c.config.baseBlockReward hcfits,
    coherentAt_rules hs s.baseBlockReward hsfits⟩

/-- The default configuration at the last block before the second halving, and a manager with an
interval of one block. -/
theorem schedules_coherent_default :
    (∃ n, (RewardCalculator.mk .default).schedule.CoherentAt 419_999 n) ∧
      ∃ n, (RewardDistributionManager.new 1 1).schedule.CoherentAt 419_999 n :=
  schedules_coherent (c := ⟨.default⟩) (s := .new 1 1) (by decide) (by decide) (by decide)
    (by decide)

end SilverPow.Rewards
