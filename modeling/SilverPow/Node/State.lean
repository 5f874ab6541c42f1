import SilverPow.Base.Bytes
import SilverPow.Base.Writes

/-!
# The state of a node and its database

`src/bin/node.rs`: the state is saved with one put for each of four fields, loaded field by
field at the next start, and completed for the blocks and the balances that are missing then.
The transactions, the unspent outputs and the mempool are empty after a load and never saved;
they are left out here. The database is the column `metadata`, whose other keys the state does
not use.
-/

namespace SilverPow.Node

open SilverPow.Base

/-- `BlockchainState`, `src/bin/node.rs:561–572`. -/
structure BlockchainState where
  blockCount : U64
  difficulty : U64
  hashrate : ℚ
  miningEnabled : Bool
  miningAddress : String
  balances : Table String U128
  blocks : Table U64 String
  deriving DecidableEq

/-- `serde_json` for balances: the text of a map in its order of iteration, and the map that
is read from a text. -/
structure BalancesJson where
  toString : List (String × U128) → Except String String
  fromStr : String → Except String (Table String U128)

/-- A map is read from its text. -/
def BalancesJson.Lawful (json : BalancesJson) : Prop :=
  ∀ (balances : Table String U128) order text, balances.Iterates order →
    json.toString order = .ok text → json.fromStr text = .ok balances

/-- `Box<dyn Error>` as `load_blockchain_state_from_db` makes it. -/
inductive LoadError where
  | message (text : String)
  | fromUtf8
  deriving DecidableEq

/-- The column of the database. -/
abbrev Metadata := Table String Bytes

/-- A word that the database holds, `src/bin/node.rs:525–541`. -/
def loadWord (db : Metadata) (key missing invalid : String) : Except LoadError U64 :=
  match db.lookup key with
  | none => .error (.message missing)
  | some bytes =>
    if bytes.length = 8 then .ok (BitVec.ofNat 64 (leNat bytes)) else .error (.message invalid)

/-- The mining address, `src/bin/node.rs:543–546`. -/
def loadMiningAddress (db : Metadata) : Except LoadError String :=
  match db.lookup "blockchain:mining_address" with
  | none => .ok ""
  | some bytes =>
    match fromUtf8 bytes with
    | some address => .ok address
    | none => .error .fromUtf8

/-- The balances, `src/bin/node.rs:548–559`: what cannot be read is no balances. -/
def loadBalances (json : BalancesJson) (db : Metadata) : Table String U128 :=
  match db.lookup "blockchain:balances" with
  | none => ∅
  | some balancesJson =>
    match fromUtf8 balancesJson with
    | none => ∅
    | some text =>
      match json.fromStr text with
      | .ok loadedBalances => loadedBalances
      | .error _ => ∅

/-- `load_blockchain_state_from_db`, `src/bin/node.rs:522–573`. -/
def loadBlockchainStateFromDb (json : BalancesJson) (db : Metadata) :
    Except LoadError BlockchainState := do
  let blockCount ← loadWord db "blockchain:block_count" "No block count found in database"
    "Invalid block count format"
  let difficulty ← loadWord db "blockchain:difficulty" "No difficulty found in database"
    "Invalid difficulty format"
  let miningAddress ← loadMiningAddress db
  return {
    blockCount
    difficulty
    hashrate := 0
    miningEnabled := false
    miningAddress
    balances := loadBalances json db
    blocks := ∅ }

/-- `save_blockchain_state_to_db`, `src/bin/node.rs:576–610`, with the order in which the
balances are iterated. After the last put it logs and returns. -/
def saveBlockchainStateToDb (json : BalancesJson) (state : BlockchainState)
    (order : List (String × U128)) : DiskWriter String Bytes Unit := do
  DiskWriter.put "blockchain:block_count" (leBytes 8 state.blockCount.toNat)
  DiskWriter.put "blockchain:difficulty" (leBytes 8 state.difficulty.toNat)
  DiskWriter.put "blockchain:mining_address" (utf8 state.miningAddress)
  match json.toString order with
  | .error e => throw (.error e)
  | .ok balancesJson => DiskWriter.put "blockchain:balances" (utf8 balancesJson)

/-- The state that a node without a saved one starts with, `src/bin/node.rs:176–187`. -/
def genesisState : BlockchainState := ⟨1, 1_000_000, 0, false, "", ∅, ∅⟩

/-- `default_miner`, `src/bin/node.rs:202`. -/
def defaultMiner : String :=
  "SLVRyNacCfuRochYj3hC8AFaQtoUDQ8fG8W6hohNVgJGj9o3kPu7eUR6F5FsRR5z118WHrAhMMZzHRBGa8MT5RcPzut"

/-- `0..block_count`. -/
def heights (blockCount : U64) : List U64 := (List.range blockCount.toNat).map (BitVec.ofNat 64)

namespace BlockchainState

/-- A missing map of blocks is filled, `src/bin/node.rs:197–208`. -/
def populateBlocks (state : BlockchainState) : BlockchainState :=
  if state.blocks = ∅ ∧ 1 < state.blockCount then
    { state with
      blocks := state.blocks.putAll ((heights state.blockCount).map (·, defaultMiner)) }
  else state

/-- Missing balances are made up from the number of blocks, `src/bin/node.rs:210–222`. -/
def populateBalances (state : BlockchainState) : BlockchainState :=
  if state.balances = ∅ ∧ 1 < state.blockCount then
    let totalReward := 50_000_000_000 * (state.blockCount - 1).setWidth 128
    { state with balances := state.balances.insert defaultMiner totalReward }
  else state

end BlockchainState

/-- The state that `main` starts with, `src/bin/node.rs:166–223`. -/
def startState (json : BalancesJson) (db : Metadata) : BlockchainState :=
  let state :=
    match loadBlockchainStateFromDb json db with
    | .ok state => state
    | .error _ => genesisState
  state.populateBlocks.populateBalances

end SilverPow.Node
