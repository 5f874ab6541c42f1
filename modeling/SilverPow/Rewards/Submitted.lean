import SilverPow.Builder.Decoding
import SilverPow.Builder.RoundTrip
import SilverPow.Rewards.Schedule
import SilverPow.Stratum.BlockText

/-!
# The rewards of submitted and of decoded blocks

`submit_block_to_node` and `Block::from_hex` each have the reward as a constant, fifty SLVR of
100 000 000 MIST. The schedule starts at ten times as much and halves every 210 000 blocks, and
no power of two divides by ten, so the constant is not the scheduled reward of any height.
-/

namespace SilverPow.Rewards

open SilverPow.Base Builder Stratum

/-- `RewardCalculator::calculate_base_reward` with `PoWConfig::default`. -/
def baseReward (height : U64) : Option U128 :=
  (RewardCalculator.mk .default).calculateBaseReward height

/-- The pool submits a block text for the height that it reads from its work. -/
def SubmittedAt (height : U64) (block : String) : Prop :=
  ∃ c env pool hash minerAddress, (PoolState.meanwhile env pool).currentWork.height = height ∧
    ⟨"submitblock", [.string block]⟩ ∈ PoolState.newRequests pool
      (pool.submitBlockToNode c env hash minerAddress).2

/-- A block of a height is decoded from some text. -/
def DecodedAt (height : U64) (block : Block) : Prop :=
  ∃ hex hexStr, Block.fromHex hex hexStr = some (.ok block) ∧ block.height = height

/-- The schedule never pays the constant. -/
theorem baseReward_ne (height : U64) : baseReward height ≠ some 5_000_000_000 := by
  have hhalved : ∀ k < 64, 50_000_000_000 / 2 ^ k ≠ 5_000_000_000 := by decide
  obtain ⟨reward, hr, hv⟩ := halvedReward_eq 50_000_000_000 height
    (show (210_000 : U64) ≠ 0 by decide)
  intro h
  have hreward : reward = 5_000_000_000 := Option.some.inj (hr.symm.trans h)
  rw [hreward, scheduled] at hv
  split at hv
  · cases hv
  · next hlt => exact hhalved _ (Nat.lt_of_not_le hlt) hv.symm

/-- The reward of a submitted text is the constant. -/
theorem rewardField_of_submittedAt {height : U64} {block : String} (h : SubmittedAt height block) :
    rewardField block = some 5_000_000_000 := by
  obtain ⟨c, env, pool, hash, minerAddress, -, hmem⟩ := h
  obtain ⟨_, block', hp, htext⟩ :=
    (PoolState.sends_submitBlockToNode env pool).forall_newRequests _ hmem rfl
  cases hp
  exact PoolState.rewardField_of_isBlockText htext

/-- At every height a block can be submitted. -/
theorem exists_submittedAt (height : U64) : ∃ block, SubmittedAt height block := by
  let pool := samplePool 1
  have hreport :
      PoolState.reportedDifficulty sampleCrates pool.config (sampleEnv.answer 0) ≠ 0 := by
    decide
  obtain ⟨block, -, hmem⟩ := PoolState.exists_submitted sampleEnv
    { pool with currentWork := { pool.currentWork with height } } submittable_largestHash hreport
  exact ⟨block, sampleCrates, sampleEnv, _, largestHash, sampleAddress, rfl, hmem⟩

/-- At every height a block can be decoded. -/
theorem exists_decodedAt (height : U64) : ∃ block, DecodedAt height block := by
  let hash : Hash32 := ⟨List.replicate 32 0, List.length_replicate⟩
  let block : Block := ⟨⟨1, hash, hash, 0, 0, 0⟩, ⟨height, "", 0, 0⟩, height, 0⟩
  exact ⟨_, _, _, Block.fromHex_toHex HexCrate.lawful_base16 block, rfl⟩

/-- At every height blocks are submitted and decoded, and none of them has the base reward of
that height. -/
theorem rewards_never_scheduled (height : U64) :
    (∃ block, SubmittedAt height block) ∧ (∃ block, DecodedAt height block) ∧
      (∀ block, SubmittedAt height block →
        (rewardField block).map (BitVec.setWidth 128) ≠ baseReward height) ∧
      ∀ block, DecodedAt height block → some block.coinbase.rewardAmount ≠ baseReward height := by
  refine ⟨exists_submittedAt height, exists_decodedAt height, ?_, ?_⟩
  · intro block h
    rw [rewardField_of_submittedAt h]
    exact (baseReward_ne height).symm
  · rintro block ⟨hex, hexStr, hdecode, -⟩
    rw [Block.rewardAmount_of_fromHex hdecode]
    exact (baseReward_ne height).symm

/-- At height zero the schedule pays ten times what is submitted and decoded. -/
theorem rewards_at_zero :
    (∃ block, SubmittedAt 0 block ∧ rewardField block = some 5_000_000_000) ∧
      (∃ block, DecodedAt 0 block ∧ block.coinbase.rewardAmount = 5_000_000_000) ∧
      baseReward 0 = some 50_000_000_000 := by
  obtain ⟨text, htext⟩ := exists_submittedAt 0
  obtain ⟨block, hblock⟩ := exists_decodedAt 0
  refine ⟨⟨text, htext, rewardField_of_submittedAt htext⟩, ⟨block, hblock, ?_⟩, by decide⟩
  obtain ⟨hex, hexStr, hdecode, -⟩ := hblock
  exact Block.rewardAmount_of_fromHex hdecode

end SilverPow.Rewards
