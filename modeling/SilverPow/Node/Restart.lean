import SilverPow.Node.Persistence

/-!
# Restarting a node

A save leaves the map of blocks out. After the load `main` fills it with one fixed miner for
every height, and makes up balances where there are none, so a restart keeps a state exactly
if its blocks are those that `main` fills in and it has balances, or no blocks to make them
up from.
-/

namespace SilverPow.Node

open SilverPow.Base

/-- Two states with the same blocks, balances and parameters. -/
structure SameState (s t : BlockchainState) : Prop where
  blockCount : s.blockCount = t.blockCount
  difficulty : s.difficulty = t.difficulty
  miningAddress : s.miningAddress = t.miningAddress
  blocks : s.blocks = t.blocks
  balances : s.balances = t.balances

/-- The state that a node starts with when it has saved one: the blocks are filled in, and
balances are made up where there are none. -/
def BlockchainState.restarted (state : BlockchainState) : BlockchainState :=
  state.reloaded.populateBlocks.populateBalances

/-- A state with more than the first block has the default miner at every height below its
number of blocks and nowhere else, and it has balances; another one has no blocks. -/
structure KeptByRestart (state : BlockchainState) : Prop where
  blocks : ∀ height, state.blocks.lookup height =
    if 1 < state.blockCount ∧ height < state.blockCount then some defaultMiner else none
  balances : 1 < state.blockCount → state.balances ≠ ∅

section Populate

variable {state : BlockchainState}

/-- The heights that `main` fills in. -/
theorem mem_heights {blockCount height : U64} :
    height ∈ heights blockCount ↔ height < blockCount := by
  rw [heights, List.mem_map, BitVec.lt_def]
  constructor
  · rintro ⟨n, hn, rfl⟩
    rw [List.mem_range] at hn
    exact (BitVec.toNat_ofNat n 64).trans_lt ((Nat.mod_le n _).trans_lt hn)
  · intro h
    exact ⟨height.toNat, List.mem_range.mpr h, by rw [BitVec.ofNat_toNat, BitVec.setWidth_eq]⟩

/-- The blocks that `main` fills in. -/
theorem lookup_populateBlocks (h : state.blocks = ∅) (height : U64) :
    state.populateBlocks.blocks.lookup height =
      if 1 < state.blockCount ∧ height < state.blockCount then some defaultMiner else none := by
  unfold BlockchainState.populateBlocks
  by_cases hcount : 1 < state.blockCount
  · rw [if_pos ⟨h, hcount⟩]
    dsimp only
    rw [Table.lookup_putAll_const, h]
    simp only [mem_heights, hcount, true_and]
    rfl
  · rw [if_neg fun hn ↦ hcount hn.2, if_neg fun hn ↦ hcount hn.1, h]
    rfl

/-- Filling in blocks changes nothing else. -/
theorem populateBlocks_eq (state : BlockchainState) :
    state.populateBlocks = { state with blocks := state.populateBlocks.blocks } := by
  unfold BlockchainState.populateBlocks
  split <;> rfl

/-- Making up balances changes nothing else. -/
theorem populateBalances_eq (state : BlockchainState) :
    state.populateBalances = { state with balances := state.populateBalances.balances } := by
  unfold BlockchainState.populateBalances
  split <;> rfl

/-- Balances are made up exactly where there are none but more than the first block. -/
theorem populateBalances_balances_iff :
    state.populateBalances.balances = state.balances ↔
      (1 < state.blockCount → state.balances ≠ ∅) := by
  unfold BlockchainState.populateBalances
  constructor
  · intro h hcount hempty
    rw [if_pos ⟨hempty, hcount⟩, hempty] at h
    have := congrArg (Finmap.lookup defaultMiner) h
    rw [Finmap.lookup_insert] at this
    cases this
  · intro h
    rw [if_neg fun hn ↦ h hn.2 hn.1]

end Populate

section Restart

variable {json : BalancesJson} {db : Metadata} {state : BlockchainState}
  {order : List (String × U128)}

/-- The state that a node starts with from a saved one. -/
theorem startState_of_encodes (h : Encodes json db state) :
    startState json db = state.restarted := by
  unfold startState
  rw [load_of_encodes h]
  rfl

/-- Saving a state, loading it and starting yields the same state, exactly if its blocks are
those that are filled in and no balances are made up. -/
theorem restart_iff (hjson : json.Lawful) (ho : state.balances.Iterates order)
    {outcomes : List PutOutcome}
    (hsaved : (saveBlockchainStateToDb json state order ⟨db, outcomes⟩).1 = .ok ()) :
    SameState (startState json (saveBlockchainStateToDb json state order ⟨db, outcomes⟩).2.store)
        state ↔ KeptByRestart state := by
  rw [startState_of_encodes (encodes_of_ok hjson ho hsaved), BlockchainState.restarted,
    populateBalances_eq, populateBlocks_eq]
  have hblocks : state.reloaded.populateBlocks.blocks = state.blocks ↔
      ∀ height, state.blocks.lookup height =
        if 1 < state.blockCount ∧ height < state.blockCount then some defaultMiner else none := by
    constructor
    · intro h height
      rw [← h]
      exact lookup_populateBlocks rfl height
    · intro h
      apply Finmap.ext_lookup
      intro height
      rw [h]
      exact lookup_populateBlocks rfl height
  have hbalances :
      { state.reloaded with
        blocks := state.reloaded.populateBlocks.blocks }.populateBalances.balances =
          state.balances ↔ (1 < state.blockCount → state.balances ≠ ∅) :=
    populateBalances_balances_iff
  constructor
  · rintro ⟨-, -, -, hb, hbal⟩
    exact ⟨hblocks.mp hb, hbalances.mp hbal⟩
  · rintro ⟨hb, hbal⟩
    exact ⟨rfl, rfl, rfl, hblocks.mpr hb, hbalances.mpr hbal⟩

end Restart

theorem save_firstBlockState :
    (saveBlockchainStateToDb sampleJson firstBlockState firstBlockOrder ⟨∅, allDone⟩).1 =
      .ok () := rfl

/-- After a restart the first block has another miner. -/
theorem restart_firstBlockState :
    firstBlockState.blocks.lookup 1 = some "miner" ∧
      let db := (saveBlockchainStateToDb sampleJson firstBlockState firstBlockOrder
        ⟨∅, allDone⟩).2.store
      (startState sampleJson db).blocks.lookup 1 = some defaultMiner ∧
        ¬SameState (startState sampleJson db) firstBlockState := by
  have hminer : firstBlockState.blocks.lookup 1 = some "miner" := Finmap.lookup_insert _
  refine ⟨hminer, ?_⟩
  dsimp only
  have h := encodes_of_ok lawful_sampleJson iterates_firstBlockState save_firstBlockState
  have hdefault : (startState sampleJson (saveBlockchainStateToDb sampleJson firstBlockState
      firstBlockOrder ⟨∅, allDone⟩).2.store).blocks.lookup 1 = some defaultMiner := by
    rw [startState_of_encodes h, BlockchainState.restarted, populateBalances_eq]
    exact lookup_populateBlocks rfl 1
  refine ⟨hdefault, ?_⟩
  intro hsame
  rw [hsame.blocks, hminer] at hdefault
  exact absurd hdefault (by decide)

/-- A node without blocks is kept. -/
theorem restart_genesisState :
    SameState (startState sampleJson (saveBlockchainStateToDb sampleJson genesisState []
      ⟨∅, allDone⟩).2.store) genesisState :=
  (restart_iff lawful_sampleJson iterates_genesisState save_genesisState).mpr
    ⟨fun _ ↦ rfl, fun h ↦ absurd h (by decide)⟩

end SilverPow.Node
