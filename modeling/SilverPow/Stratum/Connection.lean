import SilverPow.Base.Log
import SilverPow.Stratum.Sessions

/-!
# A miner's connection

The loop of `handle_miner_connection`, `src/stratum_pool.rs:1141–1556`. Other connections
change the pool between two lines of this one, so every line brings a change of the pool
along. A log keeps the subscriptions and the authorizations that succeeded and the calls
that submit shares and blocks; the variables of the loop are read off the log.
-/

namespace SilverPow.Stratum

open SilverPow.Base

/-! ### The calls of a share -/

/-- A call that submits a block or a share. -/
inductive SubmitCall where
  | submitBlockToNode (hash minerAddress : String)
  | submitShare (minerId : String) (nonce : U64) (hash : String)
  deriving DecidableEq

/-- The pool after a call. -/
def SubmitCall.perform (c : Crates) (env : Env) (pool : PoolState) : SubmitCall → PoolState
  | submitBlockToNode hash minerAddress => (pool.submitBlockToNode c env hash minerAddress).2
  | submitShare minerId nonce hash => (pool.submitShare c env minerId nonce hash).2

/-- A call is for a miner and its address. -/
def SubmitCall.Credits (minerId minerAddress : String) : SubmitCall → Prop
  | submitBlockToNode _ address => address = minerAddress
  | submitShare id _ _ => id = minerId

/-- The calls of the `mining.submit` arm, `src/stratum_pool.rs:1284–1464`. -/
def submitCalls (pool : PoolState) (conn : Connection) (params : List Value) : List SubmitCall :=
  match conn.isAuthorized, conn.minerId with
  | true, some minerId =>
    if Stale pool (paramString params 1 "0") then []
    else
      let nonce := (parseU64 16 (paramString params 2 "0")).getD 0
      let hash := paramString params 3 ""
      let share := .submitShare minerId nonce hash
      if paramBool params 4 then [.submitBlockToNode hash (conn.minerAddress.getD ""), share]
      else [share]
  | _, _ => []

/-- The arm changes the pool by these calls alone. -/
theorem pool_handleSubmit (c : Crates) (env : Env) (pool : PoolState) (conn : Connection)
    (requestId : Value) (params : List Value) :
    (handleSubmit c env pool conn requestId params).pool =
      (submitCalls pool conn params).foldl (SubmitCall.perform c env) pool := by
  cases ha : conn.isAuthorized with
  | false => simp [handleSubmit, submitCalls, ha]
  | true =>
    cases hm : conn.minerId with
    | none => simp [handleSubmit, submitCalls, ha, hm]
    | some minerId =>
      by_cases hs : Stale pool (paramString params 1 "0")
      · obtain ⟨error, hh⟩ := handleSubmit_of_stale c env requestId ha hm hs
        rw [hh]
        simp [submitCalls, ha, hm, hs]
      · rw [handleSubmit_of_not_stale c env requestId ha hm hs]
        cases hb : paramBool params 4 with
        | false =>
          simp [submitCalls, ha, hm, hs, hb, PoolState.afterBlockFlag, SubmitCall.perform]
        | true =>
          simp [submitCalls, ha, hm, hs, hb, PoolState.afterBlockFlag, SubmitCall.perform]

/-- The arm calls only for an authorized session, and for its miner. -/
theorem credits_of_mem_submitCalls {pool : PoolState} {conn : Connection} {params : List Value}
    {call : SubmitCall} (h : call ∈ submitCalls pool conn params) :
    conn.isAuthorized = true ∧ ∃ minerId,
      conn.minerId = some minerId ∧ call.Credits minerId (conn.minerAddress.getD "") := by
  unfold submitCalls at h
  split at h
  · next minerId ha hm =>
    refine ⟨ha, minerId, hm, ?_⟩
    split at h
    · cases h
    · split at h
      · simp only [List.mem_cons, List.not_mem_nil, or_false] at h
        rcases h with rfl | rfl <;> rfl
      · cases List.mem_singleton.mp h
        rfl
  · cases h

/-! ### The requests -/

/-- What the log keeps. -/
inductive LogEntry where
  | subscribed (minerId minerAddress : String)
  | authorized
  | called (call : SubmitCall)
  deriving DecidableEq

/-- What a request leads to. -/
structure Answer where
  reply : Value
  conn : Connection
  pool : PoolState
  log : List LogEntry

/-- The JSON value of a float given by its bits: infinities and NaN have none. -/
def floatValue (bits : U64) : Value :=
  if bits >>> 52 &&& 0x7FF = 0x7FF then .null else .number (.float bits)

section Loop

variable (c : Crates) (r : Registration) (sumHashrates : Table String MinerSession → U64)

/-- The arms of the request loop, `src/stratum_pool.rs:1212–1499`. -/
def handleMethod (env : Env) (pool : PoolState) (conn : Connection) (requestId : Value)
    (method : String) (params : List Value) : Answer :=
  match method with
  | "mining.subscribe" =>
    let address := paramString params 0 "unknown"
    match pool.registerMiner r env address with
    | (.ok minerId, pool) =>
      ⟨reply requestId (.array [.string minerId, .string "0"]) .null,
        ⟨some minerId, some address, false⟩, pool, [.subscribed minerId address]⟩
    | (.error e, pool) => ⟨reply requestId .null (.string e), conn, pool, []⟩
  | "mining.authorize" =>
    if conn.minerId.isSome then
      ⟨reply requestId (.bool true) .null, { conn with isAuthorized := true }, pool, [.authorized]⟩
    else ⟨reply requestId (.bool false) (.string "Not subscribed"), conn, pool, []⟩
  | "mining.submit" =>
    let handled := handleSubmit c env pool conn requestId params
    ⟨handled.reply, conn, handled.pool, (submitCalls pool conn params).map .called⟩
  | "mining.get_transactions" => ⟨reply requestId (.array []) .null, conn, pool, []⟩
  | "mining.get_hashrate" =>
    let stats := pool.getPoolStats sumHashrates
    ⟨reply requestId (floatValue stats.totalHashrate) .null, conn, pool, []⟩
  | "mining.ping" => ⟨reply requestId (.string "pong") .null, conn, pool, []⟩
  | _ => ⟨reply requestId .null (.string s!"Unknown method: {method}"), conn, pool, []⟩

/-- What the miner sends, as the loop reads it: a request is any JSON value. -/
inductive Line where
  | closed
  | timeout
  | readError (e : String)
  | blank
  | invalidJson
  | request (request : Value)

/-- A line, with what the other connections do to the pool before it, what the pool reads from
outside, and whether the reply can be written. -/
structure LineEvent where
  line : Line
  others : PoolState → PoolState
  env : Env
  written : Bool

/-- The loop: its variables, the pool, the replies that it wrote or tried to write, and the
log. -/
structure ConnectionLoop where
  running : Bool
  conn : Connection
  pool : PoolState
  replies : List Value
  log : List LogEntry

namespace ConnectionLoop

/-- The start of the loop. -/
def start (pool : PoolState) : ConnectionLoop := ⟨true, ⟨none, none, false⟩, pool, [], []⟩

/-- A request with its method, `src/stratum_pool.rs:1184–1506`. A reply to a request without
a method may fail; any other failure to write ends the loop. -/
def handleRequest (loop : ConnectionLoop) (env : Env) (written : Bool) (request : Value) :
    ConnectionLoop :=
  let requestId := (request.get "id").getD .null
  match request.get "method" with
  | some (.string method) =>
    let params := match request.get "params" with
      | some (.array params) => params
      | _ => []
    let answer := handleMethod c r sumHashrates env loop.pool loop.conn requestId method params
    ⟨written, answer.conn, answer.pool, loop.replies ++ [answer.reply], loop.log ++ answer.log⟩
  | _ =>
    { loop with
      replies := loop.replies ++ [reply requestId .null (.string "Invalid method")] }

/-- One turn of the loop, `src/stratum_pool.rs:1156–1552`. -/
def step (loop : ConnectionLoop) (e : LineEvent) : ConnectionLoop :=
  if loop.running then
    let loop := { loop with pool := e.others loop.pool }
    match e.line with
    | .closed | .timeout | .readError _ => { loop with running := false }
    | .blank => loop
    | .invalidJson =>
      { loop with
        running := e.written
        replies := loop.replies ++ [reply .null .null (.string "Invalid JSON")] }
    | .request request => loop.handleRequest c r sumHashrates e.env e.written request
  else loop

/-- The states of the loop, with the lines on the way. -/
abbrev ConnectionRun (pool : PoolState) : List LineEvent → ConnectionLoop → Prop :=
  Run (fun loop e loop' ↦ loop' = loop.step c r sumHashrates e) (start pool)

end ConnectionLoop

end Loop

/-! ### The variables of the loop, read off the log -/

/-- The subscriptions of a log. -/
def LogEntry.subscription : LogEntry → Option (String × String)
  | subscribed minerId minerAddress => some (minerId, minerAddress)
  | authorized | called _ => none

/-- The variables of the loop after a log: the latest subscription, and whether an
authorization came after it. -/
def connectionOf (log : List LogEntry) : Connection :=
  match Log.latest LogEntry.subscription log with
  | some ((minerId, minerAddress), since) =>
    ⟨some minerId, some minerAddress, decide (.authorized ∈ since)⟩
  | none => ⟨none, none, false⟩

/-- A subscription replaces the one before, and has yet to be authorized. -/
@[simp] theorem connectionOf_subscribed (log : List LogEntry) (minerId minerAddress : String) :
    connectionOf (log ++ [.subscribed minerId minerAddress]) =
      ⟨some minerId, some minerAddress, false⟩ := by
  have hl : Log.latest LogEntry.subscription (log ++ [.subscribed minerId minerAddress]) =
      some ((minerId, minerAddress), []) := Log.latest_concat rfl
  simp [connectionOf, hl]

/-- A subscription is authorized. -/
theorem connectionOf_authorized {log : List LogEntry}
    (h : (connectionOf log).minerId.isSome = true) :
    connectionOf (log ++ [.authorized]) = { connectionOf log with isAuthorized := true } := by
  unfold connectionOf at h ⊢
  rw [Log.latest_append (by simp [LogEntry.subscription])]
  cases hl : Log.latest LogEntry.subscription log with
  | none => simp [hl] at h
  | some found => simp

/-- Calls leave the variables alone. -/
@[simp] theorem connectionOf_called (log : List LogEntry) (calls : List SubmitCall) :
    connectionOf (log ++ calls.map .called) = connectionOf log := by
  unfold connectionOf
  rw [Log.latest_append (by simp [LogEntry.subscription])]
  cases Log.latest LogEntry.subscription log <;> simp

/-! ### The gate -/

/-- A call comes after a subscription and an authorization that followed it, with no other
subscription since, and it credits the miner and the address of that subscription. -/
def Gated (front : List LogEntry) : LogEntry → Prop
  | .called call => ∃ minerId minerAddress since,
      Log.latest LogEntry.subscription front = some ((minerId, minerAddress), since) ∧
        .authorized ∈ since ∧ call.Credits minerId minerAddress
  | .subscribed .. | .authorized => True

/-- The calls of a share are gated by the log before it. -/
theorem gated_of_mem_submitCalls {log : List LogEntry} {pool : PoolState} {params : List Value}
    {call : SubmitCall} (h : call ∈ submitCalls pool (connectionOf log) params) :
    Gated log (.called call) := by
  obtain ⟨ha, minerId, hm, hcredits⟩ := credits_of_mem_submitCalls h
  unfold connectionOf at ha hm hcredits
  unfold Gated
  cases hl : Log.latest LogEntry.subscription log with
  | none =>
    rw [hl] at hm
    cases hm
  | some found =>
    obtain ⟨⟨id, minerAddress⟩, since⟩ := found
    rw [hl] at ha hm hcredits
    cases hm
    exact ⟨minerId, minerAddress, since, rfl, of_decide_eq_true ha, hcredits⟩

/-- Calls do not change what gates the calls after them. -/
theorem gated_append_called {log : List LogEntry} {calls : List SubmitCall} {call : SubmitCall}
    (h : Gated log (.called call)) : Gated (log ++ calls.map .called) (.called call) := by
  obtain ⟨minerId, minerAddress, since, hl, ha, hcredits⟩ := h
  refine ⟨minerId, minerAddress, since ++ calls.map .called, ?_, List.mem_append_left _ ha,
    hcredits⟩
  rw [Log.latest_append (by simp [LogEntry.subscription]), hl]
  rfl

/-- A share keeps the log gated. -/
theorem each_gated_submitCalls {log : List LogEntry} (h : Log.Each Gated log) (pool : PoolState)
    (params : List Value) :
    Log.Each Gated (log ++ (submitCalls pool (connectionOf log) params).map .called) := by
  rw [Log.each_append]
  refine ⟨h, fun front x back he ↦ ?_⟩
  obtain ⟨calls, rest, hcalls, rfl, hrest⟩ := List.map_eq_append_iff.mp he
  obtain ⟨call, rest, rfl, rfl, -⟩ := List.map_eq_cons_iff.mp hrest
  apply gated_append_called
  apply gated_of_mem_submitCalls
  rw [hcalls]
  simp

namespace ConnectionLoop

/-- The variables of the loop are what the log says, and every call is gated. -/
structure LogKept (loop : ConnectionLoop) : Prop where
  conn : loop.conn = connectionOf loop.log
  gated : Log.Each Gated loop.log

section Steps

variable {c : Crates} {r : Registration} {sumHashrates : Table String MinerSession → U64}

/-- Each request keeps the variables and the log in step. -/
theorem logKept_handleMethod {env : Env} {pool : PoolState} {conn : Connection}
    {log : List LogEntry} (hconn : conn = connectionOf log) (hgated : Log.Each Gated log)
    (requestId : Value) (method : String) (params : List Value) :
    let answer := handleMethod c r sumHashrates env pool conn requestId method params
    answer.conn = connectionOf (log ++ answer.log) ∧ Log.Each Gated (log ++ answer.log) := by
  unfold handleMethod
  split
  -- `mining.subscribe`
  · dsimp only
    split
    · exact ⟨by simp, by simp [Log.each_concat, hgated, Gated]⟩
    · exact ⟨by simpa using hconn, by simpa using hgated⟩
  -- `mining.authorize`
  · split
    · next h =>
      rw [hconn] at h ⊢
      exact ⟨(connectionOf_authorized h).symm, by simp [Log.each_concat, hgated, Gated]⟩
    · exact ⟨by simpa using hconn, by simpa using hgated⟩
  -- `mining.submit`
  · rw [hconn]
    exact ⟨by simp, each_gated_submitCalls hgated pool params⟩
  -- Nothing else is logged.
  all_goals exact ⟨by simpa using hconn, by simpa using hgated⟩

/-- So does each line with a request. -/
theorem logKept_handleRequest {loop : ConnectionLoop} (h : LogKept loop) (env : Env)
    (written : Bool) (request : Value) :
    LogKept (loop.handleRequest c r sumHashrates env written request) := by
  unfold handleRequest
  dsimp only
  split
  · constructor
    · exact (logKept_handleMethod h.conn h.gated ..).1
    · exact (logKept_handleMethod h.conn h.gated ..).2
  · exact ⟨h.conn, h.gated⟩

/-- Each turn of the loop keeps the variables and the log in step. -/
theorem logKept_step {loop : ConnectionLoop} (h : LogKept loop) (e : LineEvent) :
    LogKept (loop.step c r sumHashrates e) := by
  have hothers : LogKept { loop with pool := e.others loop.pool } := ⟨h.conn, h.gated⟩
  unfold step
  split
  · cases hl : e.line with
    | request request => exact logKept_handleRequest hothers e.env e.written request
    | blank => exact hothers
    | closed | timeout | readError | invalidJson => exact ⟨h.conn, h.gated⟩
  · exact h

/-- Whatever is sent over a connection, every call that submits a share or a block comes after
an authorization of the latest subscription, and credits its miner. -/
theorem gated_of_run {pool : PoolState} {es : List LineEvent} {loop : ConnectionLoop}
    (h : ConnectionRun c r sumHashrates pool es loop) : Log.Each Gated loop.log := by
  have hkept : LogKept loop := by
    refine h.invariant LogKept ⟨rfl, Log.each_nil⟩ ?_
    rintro loop e loop' hk rfl
    exact logKept_step hk e
  exact hkept.gated

end Steps

end ConnectionLoop

/-! ### One miner over its connection -/

/-- A line that arrives while nothing else happens. -/
def sampleLine (method : String) (params : List Value) : LineEvent where
  line := .request (.object [("method", .string method), ("params", .array params)])
  others := id
  env := sampleEnv
  written := true

/-- The loop handles a method of the miner. -/
def sampleAnswer (pool : PoolState) (conn : Connection) (method : String) (params : List Value) :
    Answer :=
  handleMethod sampleCrates PoolState.sampleRegistration (fun _ ↦ 0) sampleEnv pool conn .null
    method params

/-- Such a line is handled by its method. -/
theorem step_sampleLine {loop : ConnectionLoop} (h : loop.running = true) (method : String)
    (params : List Value) :
    loop.step sampleCrates PoolState.sampleRegistration (fun _ ↦ 0) (sampleLine method params) =
      let answer := sampleAnswer loop.pool loop.conn method params
      ⟨true, answer.conn, answer.pool, loop.replies ++ [answer.reply], loop.log ++ answer.log⟩ := by
  simp [ConnectionLoop.step, h, sampleLine, ConnectionLoop.handleRequest, Value.get,
    List.lookup_cons, sampleAnswer]

/-- The miner subscribes, authorizes and submits a share. -/
def sampleLines : List LineEvent :=
  [sampleLine "mining.subscribe" [.string PoolState.registeredAddress],
    sampleLine "mining.authorize" [], sampleLine "mining.submit" []]

/-- The loop after these lines. -/
def sampleLoop : ConnectionLoop :=
  sampleLines.foldl (ConnectionLoop.step sampleCrates PoolState.sampleRegistration fun _ ↦ 0)
    (.start PoolState.startedPool)

/-- The share is submitted after the authorization. -/
theorem gated_of_run_submitted :
    .called (.submitShare (sampleEnv.uuid 0) 0 "") ∈ sampleLoop.log ∧
      Log.Each Gated sampleLoop.log := by
  refine ⟨?_, ConnectionLoop.gated_of_run (Run.foldl _ _ _)⟩
  have hsubscribed (pool : PoolState) (conn : Connection) :
      (sampleAnswer pool conn "mining.subscribe" [.string PoolState.registeredAddress]).conn =
        ⟨some (sampleEnv.uuid 0), some PoolState.registeredAddress, false⟩ := by
    unfold sampleAnswer handleMethod
    simp [paramString, PoolState.registerMiner_registeredAddress]
  have hauthorized (pool : PoolState) (address : Option String) :
      (sampleAnswer pool ⟨some (sampleEnv.uuid 0), address, false⟩ "mining.authorize" []).conn =
        ⟨some (sampleEnv.uuid 0), address, true⟩ := by
    unfold sampleAnswer handleMethod
    simp
  have hsubmitted (pool : PoolState) (address : Option String) :
      (sampleAnswer pool ⟨some (sampleEnv.uuid 0), address, true⟩ "mining.submit" []).log =
        [.called (.submitShare (sampleEnv.uuid 0) 0 "")] := by
    have hjob : jobHeight "0" = 0#64 := by decide
    have hnonce : parseU64 16 "0" = some 0#64 := by decide
    unfold sampleAnswer handleMethod
    simp [submitCalls, Stale, hjob, hnonce, paramString, paramBool]
  rw [sampleLoop, sampleLines, List.foldl_cons, step_sampleLine rfl, List.foldl_cons,
    step_sampleLine rfl, List.foldl_cons, step_sampleLine rfl, List.foldl_nil]
  dsimp only
  rw [hsubscribed, hauthorized, hsubmitted]
  apply List.mem_append_right
  exact List.mem_singleton_self _

end SilverPow.Stratum
