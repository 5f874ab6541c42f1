import SilverPow.Stratum.Pool

/-!
# Submitting a share over a connection

The `mining.submit` arm of the pool's connection handler (`src/stratum_pool.rs:1284–1473`)
and the client's `submit_share` (`src/stratum_client.rs:223–347`). The handler also says
what `PoolState::submit_share` returned, when it was called, and whether it spawned a task
that synchronizes the height. Such a task runs on its own: what it writes is there when the
work is read next, and its request may come between any two of the handler's.
-/

namespace SilverPow.Stratum

open SilverPow.Base

/-! ### The pool's side -/

/-- The variables of `handle_miner_connection`, `src/stratum_pool.rs:1150–1152`. -/
structure Connection where
  minerId : Option String
  minerAddress : Option String
  isAuthorized : Bool

/-- A reply to a request. -/
def reply (requestId result error : Value) : Value :=
  .object [("id", requestId), ("result", result), ("error", error)]

section Reply

variable (requestId result error : Value)

@[simp] theorem get_id_reply : (reply requestId result error).get "id" = some requestId := by
  simp [reply, Value.get]

@[simp] theorem get_result_reply :
    (reply requestId result error).get "result" = some result := by
  simp [reply, Value.get, List.lookup_cons]

@[simp] theorem get_error_reply : (reply requestId result error).get "error" = some error := by
  simp [reply, Value.get, List.lookup_cons]

@[simp] theorem get_method_reply : (reply requestId result error).get "method" = none := by
  simp [reply, Value.get, List.lookup_cons]

end Reply

/-- The text at a position of the parameters, or a default. -/
def paramString (params : List Value) (i : Nat) (default : String) : String :=
  match params[i]? with
  | some (.string s) => s
  | _ => default

/-- The flag at a position of the parameters, `false` by default. -/
def paramBool (params : List Value) (i : Nat) : Bool :=
  match params[i]? with
  | some (.bool b) => b
  | _ => false

/-- The block height in front of the first underscore of a job id, zero when there is none;
`src/stratum_pool.rs:1310–1314`. -/
def jobHeight (jobId : String) : U64 :=
  (parseU64 10 (String.ofList (jobId.toList.takeWhile (· ≠ '_')))).getD 0

/-- The job is for a height below the pool's, `src/stratum_pool.rs:1323`. -/
def Stale (pool : PoolState) (jobId : String) : Prop :=
  0 < jobHeight jobId ∧ jobHeight jobId < pool.currentWork.height

instance (pool : PoolState) (jobId : String) : Decidable (Stale pool jobId) :=
  inferInstanceAs (Decidable (_ ∧ _))

/-- The reply to a share that was submitted, `src/stratum_pool.rs:1425–1464`. -/
def shareReply (requestId : Value) : Except String Bool → Value
  | .ok true => reply requestId .null .null
  | .ok false => reply requestId .null (.string "Share rejected")
  | .error e => reply requestId .null (.string e)

/-- The pool after the block submission that the `is_block` flag asks for, whose result is
only logged; `src/stratum_pool.rs:1382–1422`. -/
def PoolState.afterBlockFlag (c : Crates) (env : Env) (pool : PoolState) (conn : Connection)
    (hash : String) (isBlock : Bool) : PoolState :=
  if isBlock then (pool.submitBlockToNode c env hash (conn.minerAddress.getD "")).2 else pool

/-- A task is spawned to synchronize the height, since the block that the `is_block` flag asks
for was submitted; `src/stratum_pool.rs:1393–1416`. -/
def PoolState.spawnsSync (c : Crates) (env : Env) (pool : PoolState) (conn : Connection)
    (hash : String) (isBlock : Bool) : Bool :=
  isBlock && (pool.submitBlockToNode c env hash (conn.minerAddress.getD "")).1.isOk

/-- What the handler did with a message: its reply, the result of `PoolState::submit_share`
if it was called, the pool, and whether it spawned a synchronization. -/
structure Handled where
  reply : Value
  share : Option (Except String Bool)
  pool : PoolState
  spawned : Bool

/-- The `mining.submit` arm, `src/stratum_pool.rs:1284–1473`. -/
def handleSubmit (c : Crates) (env : Env) (pool : PoolState) (conn : Connection)
    (requestId : Value) (params : List Value) : Handled :=
  match conn.isAuthorized, conn.minerId with
  | true, some minerId =>
    let jobId := paramString params 1 "0"
    let expected := pool.currentWork.height.toNat
    if Stale pool jobId then
      ⟨reply requestId (.bool false) (.string
        (s!"Stale share: block height mismatch (expected {expected}, " ++
          s!"got {(jobHeight jobId).toNat})")), none, pool, false⟩
    else
      let nonce := (parseU64 16 (paramString params 2 "0")).getD 0
      let hash := paramString params 3 ""
      let spawned := pool.spawnsSync c env conn hash (paramBool params 4)
      let pool := pool.afterBlockFlag c env conn hash (paramBool params 4)
      let (result, pool) := pool.submitShare c env minerId nonce hash
      ⟨shareReply requestId result, some result, pool, spawned⟩
  | _, _ => ⟨reply requestId (.bool false) (.string "Not authorized"), none, pool, false⟩

section Submit

variable (c : Crates) (env : Env) {pool : PoolState} {conn : Connection} {minerId : String}
  (requestId : Value) {params : List Value}

/-- A stale share leaves the pool alone. -/
theorem handleSubmit_of_stale (ha : conn.isAuthorized = true) (hm : conn.minerId = some minerId)
    (hs : Stale pool (paramString params 1 "0")) :
    ∃ error, handleSubmit c env pool conn requestId params =
      ⟨reply requestId (.bool false) error, none, pool, false⟩ := by
  simp [handleSubmit, ha, hm, hs]

/-- A share that is not stale is submitted, after the block when the flag asks for it. -/
theorem handleSubmit_of_not_stale (ha : conn.isAuthorized = true)
    (hm : conn.minerId = some minerId) (hs : ¬Stale pool (paramString params 1 "0")) :
    handleSubmit c env pool conn requestId params =
      let nonce := (parseU64 16 (paramString params 2 "0")).getD 0
      let hash := paramString params 3 ""
      let submitted := (pool.afterBlockFlag c env conn hash (paramBool params 4)).submitShare c env
        minerId nonce hash
      ⟨shareReply requestId submitted.1, some submitted.1, submitted.2,
        pool.spawnsSync c env conn hash (paramBool params 4)⟩ := by
  simp [handleSubmit, ha, hm, hs]

end Submit

/-- A line with a `mining.submit` request: its identifier and its parameters are taken out,
`src/stratum_pool.rs:1202–1209`. -/
def handleSubmitRequest (c : Crates) (env : Env) (pool : PoolState) (conn : Connection)
    (request : Value) : Handled :=
  let params := match request.get "params" with
    | some (.array params) => params
    | _ => []
  handleSubmit c env pool conn ((request.get "id").getD .null) params

/-! ### The client's side -/

/-- `ConnectionState`, `src/stratum_client.rs:13–18`. -/
inductive ConnectionState where
  | disconnected
  | connected
  | subscribed
  | authorized
  deriving DecidableEq

/-- The name that the derived `Debug` prints. -/
def ConnectionState.debugText : ConnectionState → String
  | disconnected => "Disconnected"
  | connected => "Connected"
  | subscribed => "Subscribed"
  | authorized => "Authorized"

/-- `StratumClient`, `src/stratum_client.rs:21–42`; the fields that `submit_share` uses. -/
structure StratumClient where
  minerAddress : String
  state : ConnectionState
  requestId : U64

/-- The result of one `read_response`. -/
inductive Incoming where
  | value (v : Value)
  | error (e : String)
  | timeout

/-- The result of `send_request`: a write error also disconnects the client. -/
inductive Sent where
  | ok
  | notConnected
  | broken (e : String)

/-- A keepalive answer, `src/stratum_client.rs:260–265`. -/
def isPong (response : Value) : Bool :=
  match response.get "method" with
  | some (.string m) => m = "mining.ping" || m = "pong"
  | _ => false

/-- The loop that skips lines until one answers the request, `src/stratum_client.rs:253–287`;
`none` when all lines so far were skipped. -/
def awaitReply (requestId : U64) : List Incoming → Option (Except String Value)
  | [] => none
  | .value response :: rest =>
    if isPong response then awaitReply requestId rest
    else if (response.get "id").bind Value.asU64 = some requestId then some (.ok response)
    else awaitReply requestId rest
  | .error e :: _ => some (.error s!"Share response error: {e}")
  | .timeout :: _ => some (.error "Share response timeout")

/-- Whether a reply is read as acceptance, `src/stratum_client.rs:290–346`: everything but
`false`, and a missing result with an error, is. -/
def decodeShareReply (response : Value) : Bool :=
  match response.get "result" with
  | some (.bool b) => b
  | some _ => true
  | none => (response.get "error").isNone

namespace StratumClient

/-- The `mining.submit` message, `src/stratum_client.rs:244–248`. -/
def shareRequest (client : StratumClient) (jobId : String) (nonce : U64) (hash : String)
    (isBlock : Bool) : Value :=
  .object [("id", .number (.posInt client.requestId)), ("method", .string "mining.submit"),
    ("params", .array [.string client.minerAddress, .string jobId,
      .string (hexText nonce.toNat), .string hash, .bool isBlock])]

/-- `StratumClient::submit_share`, `src/stratum_client.rs:223–347`, given how sending went and
what was read afterwards. -/
def submitShare (client : StratumClient) (sent : Sent) (incoming : List Incoming) :
    Option (Except String Bool) × StratumClient :=
  if client.state ≠ .authorized then
    let state := client.state.debugText
    (some (.error s!"Not authorized (state: {state}). Must call connect() first."), client)
  else
    let next := { client with requestId := client.requestId + 1 }
    match sent with
    | .notConnected => (some (.error "Not connected to pool"), next)
    | .broken e => (some (.error e), { next with state := .disconnected })
    | .ok =>
      ((awaitReply client.requestId incoming).map fun r ↦ r.map decodeShareReply, next)

end StratumClient
end SilverPow.Stratum
