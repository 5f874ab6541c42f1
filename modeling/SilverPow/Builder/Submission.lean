import SilverPow.Base.Run
import SilverPow.Builder.Block
import SilverPow.Stratum.Node

/-!
# The submission of blocks

`src/block_submission.rs`: a call builds a block on the last block that it knows, validates it
against the last height, sends it to the node and, if the node accepts it, stores its hash
and its height. Calls run at the same time and wait between these steps; each step is one
event, and a call is known by its number. The two locks of an update are held until both
values are written, so an update is one step.
-/

namespace SilverPow.Builder

open SilverPow.Base SilverPow.Work SilverPow.Stratum

/-- `BlockHeader::hash`, `src/block_builder.rs:87–100`: SHA-512 twice. -/
def BlockHeader.hash (sha512 : Sha512) (header : BlockHeader) : Digest :=
  sha512 (sha512 header.toBytes).bytes

/-- `Block::hash`, `src/block_builder.rs:265–267`. -/
def Block.hash (sha512 : Sha512) (block : Block) : Digest := block.header.hash sha512

/-- `Block::hash_hex`, `src/block_builder.rs:270–272`. -/
def Block.hashHex (sha512 : Sha512) (hex : HexCrate) (block : Block) : String :=
  hex.encode (block.hash sha512).bytes

/-- The first 32 bytes of a hash, `src/block_submission.rs:126–128`. -/
def firstBytes (hash : Digest) : Hash32 :=
  ⟨hash.bytes.take 32, by rw [List.length_take, hash.length_eq]; rfl⟩

/-- `[0u8; 32]`. -/
def zeroHash : Hash32 := ⟨List.replicate 32 0, rfl⟩

/-- `BlockBuilder`, `src/block_builder.rs:276–281`. -/
structure BlockBuilder where
  version : U32
  prevBlockHash : Hash32
  merkleRoot : Hash32
  bits : U32

/-- `BlockBuilder::build`, `src/block_builder.rs:295–331`, with the clock. -/
def BlockBuilder.build (builder : BlockBuilder) (now : Except String U64) (nonce : U32)
    (blockHeight : U64) (minerAddress : String) (rewardAmount transactionFees : U128) :
    Except String Block :=
  match now with
  | .error e => .error s!"Time error: {e}"
  | .ok now =>
    .ok {
      header :=
        { version := builder.version
          prevBlockHash := builder.prevBlockHash
          merkleRoot := builder.merkleRoot
          timestamp := now.setWidth 32
          bits := builder.bits
          nonce }
      coinbase := ⟨blockHeight, minerAddress, rewardAmount, transactionFees⟩
      height := blockHeight
      timestamp := now }

/-- `SubmissionStatus`, `src/block_submission.rs:28–35`. -/
inductive SubmissionStatus where
  | accepted
  | rejected
  | failed
  deriving DecidableEq

/-- `BlockSubmissionResult`, `src/block_submission.rs:11–24`. -/
structure BlockSubmissionResult where
  blockHash : String
  blockHeight : U64
  minerAddress : String
  status : SubmissionStatus
  error : Option String
  timestamp : U64

/-- The arguments of `submit_block`. -/
structure SubmitArgs where
  nonce : U32
  blockHeight : U64
  minerAddress : String
  rewardAmount : U128
  transactionFees : U128
  difficultyBits : U32

/-- `validate_block`, `src/block_submission.rs:166–203`, with the clock. -/
def validateBlock (currentHeight : U64) (now : Except String U64) (block : Block) :
    Except String Unit :=
  let version := block.header.version.toNat
  let expected := (currentHeight + 1).toNat
  let got := block.height.toNat
  if block.header.version ≠ 1 then .error s!"Invalid block version: {version}"
  else match now with
    | .error e => .error s!"Time error: {e}"
    | .ok now =>
      if now + 7200 < block.header.timestamp.setWidth 64 then
        .error "Block timestamp too far in future"
      else if block.coinbase.minerAddress = "" then .error "Coinbase missing miner address"
      else if block.coinbase.rewardAmount = 0 then .error "Coinbase reward is zero"
      else if block.height ≠ currentHeight + 1 then
        .error s!"Invalid block height: expected {expected}, got {got}"
      else .ok ()

/-- How `submit_to_node` reads the answer, `src/block_submission.rs:226–249`. -/
def nodeVerdict : NodeAnswer → Except String Bool
  | .response _ (.ok json) => .ok ((json.get "error").all Value.isNull)
  | .response _ (.error e) => .error s!"Failed to parse node response: {e}"
  | .failed e => .error s!"RPC request failed: {e}"
  | .timeout => .error "RPC request timeout"

/-- Where a call of `submit_block` stands, with the time of its result and its block. -/
inductive Phase where
  | built (timestamp : U64) (block : Block)
  | validated (timestamp : U64) (block : Block)
  | sent (timestamp : U64) (block : Block)
  | confirmed (timestamp : U64) (block : Block)
  | returned (result : Except String BlockSubmissionResult)

/-- `BlockSubmissionHandler`, `src/block_submission.rs:38–47`, with its calls by their numbers
and the blocks reported as accepted, in order. -/
structure BlockSubmissionHandler where
  httpClient : List RpcRequest
  prevBlockHash : Hash32
  currentHeight : U64
  calls : List Phase
  accepted : List Block

/-- A step of a call, with what it reads from outside. -/
inductive SubmissionEvent where
  /-- A new call takes the time and the last hash, and builds its block. -/
  | readPrevHash (args : SubmitArgs) (now builtAt : Except String U64)
  | readHeight (call : Nat) (now : Except String U64)
  | send (call : Nat)
  | receive (call : Nat) (answer : NodeAnswer)
  | update (call : Nat)

namespace BlockSubmissionHandler

/-- `BlockSubmissionHandler::new`, `src/block_submission.rs:51–58`. -/
def new : BlockSubmissionHandler := ⟨[], zeroHash, 0, [], []⟩

/-- A result of `submit_block` for a block. -/
def result (sha512 : Sha512) (hex : HexCrate) (timestamp : U64) (block : Block)
    (status : SubmissionStatus) (error : Option String) : BlockSubmissionResult where
  blockHash := block.hashHex sha512 hex
  blockHeight := block.height
  minerAddress := block.coinbase.minerAddress
  status
  error
  timestamp

/-- The start of `submit_block`, `src/block_submission.rs:81–99`. -/
def buildBlock (prevBlockHash : Hash32) (args : SubmitArgs) (now builtAt : Except String U64) :
    Phase :=
  match now with
  | .error e => .returned (.error s!"Time error: {e}")
  | .ok timestamp =>
    let builder : BlockBuilder := ⟨1, prevBlockHash, zeroHash, args.difficultyBits⟩
    match builder.build builtAt args.nonce args.blockHeight args.minerAddress args.rewardAmount
      args.transactionFees with
    | .error e => .returned (.error s!"Block build failed: {e}")
    | .ok block => .built timestamp block

/-- A call moves on to a phase. -/
def moveTo (s : BlockSubmissionHandler) (call : Nat) (phase : Phase) : BlockSubmissionHandler :=
  { s with calls := s.calls.set call phase }

/-- One step of `submit_block`, `src/block_submission.rs:72–163`. -/
def step (sha512 : Sha512) (hex : HexCrate) (s : BlockSubmissionHandler) :
    SubmissionEvent → BlockSubmissionHandler
  | .readPrevHash args now builtAt =>
    { s with calls := s.calls ++ [buildBlock s.prevBlockHash args now builtAt] }
  | .readHeight call now =>
    match s.calls[call]? with
    | some (.built timestamp block) =>
      match validateBlock s.currentHeight now block with
      | .ok () => s.moveTo call (.validated timestamp block)
      | .error e =>
        s.moveTo call (.returned (.ok (result sha512 hex timestamp block .rejected (some e))))
    | _ => s
  | .send call =>
    match s.calls[call]? with
    | some (.validated timestamp block) =>
      { s.moveTo call (.sent timestamp block) with
        httpClient := s.httpClient ++ [⟨"submitblock", [.string (block.toHex hex)]⟩] }
    | _ => s
  | .receive call answer =>
    match s.calls[call]? with
    | some (.sent timestamp block) =>
      match nodeVerdict answer with
      | .ok true => s.moveTo call (.confirmed timestamp block)
      | .ok false =>
        s.moveTo call (.returned (.ok (result sha512 hex timestamp block .rejected
          (some "Node rejected block"))))
      | .error e =>
        s.moveTo call (.returned (.ok (result sha512 hex timestamp block .failed (some e))))
    | _ => s
  | .update call =>
    match s.calls[call]? with
    | some (.confirmed timestamp block) =>
      { s.moveTo call (.returned (.ok (result sha512 hex timestamp block .accepted none))) with
        prevBlockHash := firstBytes (block.hash sha512)
        currentHeight := block.height
        accepted := s.accepted ++ [block] }
    | _ => s

/-- The states that a handler reaches, with the steps of its calls in any order. -/
abbrev SubmissionRun (sha512 : Sha512) (hex : HexCrate) :
    List SubmissionEvent → BlockSubmissionHandler → Prop :=
  Run (fun s e s' ↦ s' = s.step sha512 hex e) new

end BlockSubmissionHandler
end SilverPow.Builder
