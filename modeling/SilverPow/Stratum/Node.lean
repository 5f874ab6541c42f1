import SilverPow.Base.Table
import SilverPow.Stratum.Json
import SilverPow.Work.Target

/-!
# The pool and its node

`src/stratum_pool.rs:25–283`: the state of the pool and its requests to the node. The HTTP
client is the list of requests that the calls sent, one call after another; what the node
answers, the clock and fresh identifiers come from an environment, indexed by the number of
requests sent before. Other tasks send requests in between, which the list leaves out, and
write the current work. Floats are bits, and what is computed from them is a parameter.
-/

namespace SilverPow.Stratum

open SilverPow.Base SilverPow.Work

/-- The third-party functions that the pool calls, and its float expressions. -/
structure Crates where
  /-- `hex::decode`, with the text of its error. -/
  hexDecode : String → Except String Bytes
  /-- `hex::encode`. -/
  hexEncode : Bytes → String
  sha512 : Sha512
  /-- The text of a JSON value. -/
  valueText : Value → String
  /-- `StatusCode::canonical_reason`. -/
  canonicalReason : Nat → Option String
  /-- The cast of a float to an unsigned number. -/
  castU64 : U64 → U64
  /-- `(difficulty as f64).log2() as u32`, `src/stratum_pool.rs:459–460`, `552–553`. -/
  log2 : U64 → U32
  /-- The compact encoding of a difficulty above one, `src/stratum_pool.rs:656–686`. -/
  difficultyBits : U64 → U32
  /-- The hashrate, `src/stratum_pool.rs:405`, of the valid shares, the difficulty and the
  seconds elapsed. -/
  hashrate : U64 → U64 → U64 → U64

/-- What the node answers to one request. -/
inductive NodeAnswer where
  /-- A response with its status and its body, or the error of reading the body. -/
  | response (status : Nat) (body : Except String Value)
  | failed (error : String)
  | timeout

/-- The `result` field of a response that is JSON. -/
def NodeAnswer.result : NodeAnswer → Option Value
  | .response _ (.ok json) => json.get "result"
  | _ => none

/-- A request to the node: JSON-RPC 2.0 with the identifier 1. -/
structure RpcRequest where
  method : String
  params : List Value

/-- `WorkPackage` of the pool, `src/stratum_pool.rs:84–95`. -/
structure PoolWork where
  id : String
  header : String
  target : String
  height : U64
  timestamp : U64

/-- What the pool reads from outside. -/
structure Env where
  answer : Nat → NodeAnswer
  /-- What the other tasks have made of the current work when a call comes to read it: the
  synchronization that a flagged block leaves running, the periodic one, an update. -/
  others : Nat → PoolWork → PoolWork
  now : Nat → U64
  uuid : Nat → String

/-- `PoolConfig`, `src/stratum_pool.rs:25–40`. -/
structure PoolConfig where
  nodeRpcUrl : String
  poolDifficulty : U64

/-- `MinerSession`, `src/stratum_pool.rs:44–63`. -/
structure MinerSession where
  minerId : String
  address : String
  difficulty : U64
  shares : U64
  validShares : U64
  invalidShares : U64
  lastShareTime : U64
  connectedTime : U64
  hashrate : U64

/-- `PoolState`, `src/stratum_pool.rs:67–80`. -/
structure PoolState where
  miners : Table String MinerSession
  currentWork : PoolWork
  config : PoolConfig
  httpClient : List RpcRequest
  totalShares : U64
  totalValidShares : U64

namespace PoolState

/-- Send a request to the node and take its answer. -/
def post (env : Env) (pool : PoolState) (method : String) (params : List Value) :
    NodeAnswer × PoolState :=
  (env.answer pool.httpClient.length,
    { pool with httpClient := pool.httpClient ++ [⟨method, params⟩] })

/-- The pool with the current work as the other tasks have left it. -/
def meanwhile (env : Env) (pool : PoolState) : PoolState :=
  { pool with currentWork := env.others pool.httpClient.length pool.currentWork }

/-- How `get_current_difficulty_from_node`, `get_previous_block_hash` and
`sync_block_height_from_node` treat an answer without a usable response. -/
def rpcFailure (c : Crates) : NodeAnswer → String
  | .response _ (.ok json) =>
    match json.get "error" with
    | some error => s!"RPC error: {c.valueText error}"
    | none => "Invalid RPC response format"
  | .response _ (.error e) => s!"Failed to parse RPC response: {e}"
  | .failed e => s!"HTTP request failed: {e}"
  | .timeout => "RPC request timeout"

/-- `get_current_difficulty_from_node`, `src/stratum_pool.rs:181–225`. -/
def getCurrentDifficultyFromNode (c : Crates) (env : Env) (pool : PoolState) :
    Except String U64 × PoolState :=
  let (answer, pool) := pool.post env "getdifficulty" []
  match answer.result with
  | some (.number (.posInt n)) => (.ok n, pool)
  -- A negative number is cast from a float to zero.
  | some (.number (.negInt _)) => (.ok 0, pool)
  | some (.number (.float bits)) => (.ok (c.castU64 bits), pool)
  | some _ => (.error "Invalid difficulty format in RPC response", pool)
  | none => (.error (rpcFailure c answer), pool)

/-- The text is 128 hexadecimal digits. -/
def isBlockHash (hash : String) : Bool :=
  hash.utf8ByteSize = 128 && hash.toList.all fun ch ↦ (digitOf 16 ch).isSome

/-- `get_previous_block_hash`, `src/stratum_pool.rs:230–283`. -/
def getPreviousBlockHash (c : Crates) (env : Env) (pool : PoolState) (height : U64) :
    Except String String × PoolState :=
  if height = 0 then (.ok (String.ofList (List.replicate 128 '0')), pool)
  else
    let (answer, pool) := pool.post env "getblockhash" [.number (.posInt (height - 1))]
    match answer.result with
    | some (.string hash) =>
      if isBlockHash hash then (.ok hash, pool)
      else (.error s!"Invalid hash format: {hash}", pool)
    | _ => (.error (rpcFailure c answer), pool)

/-- `sync_block_height_from_node`, `src/stratum_pool.rs:128–176`. -/
def syncBlockHeightFromNode (c : Crates) (env : Env) (pool : PoolState) :
    Except String U64 × PoolState :=
  let (answer, pool) := pool.post env "getblockcount" []
  match answer.result with
  | some (.number (.posInt height)) =>
    (.ok height, { pool with currentWork := { pool.currentWork with
      height := height + 1
      id := env.uuid pool.httpClient.length
      timestamp := env.now pool.httpClient.length } })
  | _ => (.error (rpcFailure c answer), pool)

/-- The difficulty that the node reports, or the pool's own when it does not;
`src/stratum_pool.rs:534–542`, `632–639`. -/
def networkDifficulty (c : Crates) (env : Env) (pool : PoolState) : U64 × PoolState :=
  match pool.getCurrentDifficultyFromNode c env with
  | (.ok difficulty, pool) => (difficulty, pool)
  | (.error _, pool) => (pool.config.poolDifficulty, pool)

/-! ### The answers behind the results -/

@[simp] theorem httpClient_meanwhile (env : Env) (pool : PoolState) :
    (pool.meanwhile env).httpClient = pool.httpClient := rfl

theorem currentWork_meanwhile (env : Env) (pool : PoolState) :
    (pool.meanwhile env).currentWork = env.others pool.httpClient.length pool.currentWork := rfl

@[simp] theorem config_meanwhile (env : Env) (pool : PoolState) :
    (pool.meanwhile env).config = pool.config := rfl

@[simp] theorem length_httpClient_post (env : Env) (pool : PoolState) (method : String)
    (params : List Value) :
    (pool.post env method params).2.httpClient.length = pool.httpClient.length + 1 :=
  List.length_append

/-- The difficulty that an answer to `getdifficulty` stands for, the pool's own when it
reports none. -/
def reportedDifficulty (c : Crates) (config : PoolConfig) (answer : NodeAnswer) : U64 :=
  match answer.result with
  | some (.number (.posInt n)) => n
  | some (.number (.negInt _)) => 0
  | some (.number (.float bits)) => c.castU64 bits
  | _ => config.poolDifficulty

/-- Asking for the difficulty takes one request and yields what its answer stands for. -/
theorem networkDifficulty_eq (c : Crates) (env : Env) (pool : PoolState) :
    pool.networkDifficulty c env =
      (reportedDifficulty c pool.config (env.answer pool.httpClient.length),
        (pool.post env "getdifficulty" []).2) := by
  unfold networkDifficulty getCurrentDifficultyFromNode reportedDifficulty post
  dsimp only
  split
  · next d p h =>
    split at h <;> cases h <;> simp only [*]
  · next e p h =>
    split at h <;> cases h <;> simp only [*]
    next result hpos hneg hfloat hres =>
      split
      · next n hn => exact absurd (Option.some.inj hn) (hpos n)
      · next i hi => exact absurd (Option.some.inj hi) (hneg i)
      · next bits hb => exact absurd (Option.some.inj hb) (hfloat bits)
      · rfl

/-- Asking for the hash of the block below a height takes one request, none at height zero. -/
theorem getPreviousBlockHash_snd (c : Crates) (env : Env) (pool : PoolState) (height : U64) :
    (pool.getPreviousBlockHash c env height).2 =
      if height = 0 then pool
      else (pool.post env "getblockhash" [.number (.posInt (height - 1))]).2 := by
  unfold getPreviousBlockHash
  split
  · rfl
  · dsimp only
    split
    · split <;> rfl
    · rfl

/-- The number of requests when the hash has been asked for. -/
theorem length_httpClient_getPreviousBlockHash (c : Crates) (env : Env) (pool : PoolState)
    (height : U64) :
    (pool.getPreviousBlockHash c env height).2.httpClient.length =
      if height = 0 then pool.httpClient.length else pool.httpClient.length + 1 := by
  rw [getPreviousBlockHash_snd]
  split
  · rfl
  · exact length_httpClient_post ..

end PoolState
end SilverPow.Stratum
