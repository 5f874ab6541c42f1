import SilverPow.Node.Persistence
import SilverPow.WebSocket.Connections

/-!
# A running node

`src/bin/node.rs:28–62`, `239–341`, `381–486`: requests are handled at the same time, and `main`
saves the state once more after it was asked to stop. A save holds the read lock of the state from
before its first put, and several saves may hold it together. The fields of the state itself change
only under the write lock; the balances and the blocks have locks of their own.
-/

namespace SilverPow.Node

open SilverPow.Base SilverPow.Stratum SilverPow.WebSocket

/-- `RpcRequest`, with the fields that the node reads. -/
structure RpcRequest where
  method : String
  params : Value
  id : Value

/-- `RpcError`. -/
structure RpcError where
  code : Int
  message : String

/-- A response, with its status; `jsonrpc` is always the text `2.0`. -/
structure RpcResponse where
  status : Nat
  result : Option Value
  error : Option RpcError
  id : Value

/-- The refusal of a request after `request_shutdown`, `src/bin/node.rs:421–435`. -/
def refusal (request : RpcRequest) : RpcResponse :=
  ⟨503, none, some ⟨-32603, "Node is shutting down"⟩, request.id⟩

/-- The response to a request that was handled, `src/bin/node.rs:470–485`. -/
def response (request : RpcRequest) : Except RpcError Value → RpcResponse
  | .ok result => ⟨200, some result, none, request.id⟩
  | .error err => ⟨200, none, some err, request.id⟩

/-- Where a save stands: it has done some of its puts, or it is over, with success or not. -/
inductive SaveProgress where
  | puts (n : Nat)
  | over (ok : Bool)
  deriving DecidableEq

/-- Where `handle_rpc` stands with a request: in `handle_rpc_method`, back from it, in the save
that follows `submitblock`, or at its end. The save holds the read lock, and so does the
announcement after it. -/
inductive RequestPhase where
  | calling
  | returned (result : Except RpcError Value)
  | saving (result : Except RpcError Value) (progress : SaveProgress)
  | answered (response : RpcResponse)

/-- A request that has arrived. -/
structure RpcTask where
  request : RpcRequest
  phase : RequestPhase

/-- Where `main` stands: it serves, it has asked for the shutdown, it saves the state under the
read lock, or it has let go of the lock. -/
inductive MainPhase where
  | serving
  | draining
  | saving (progress : SaveProgress)
  | finishing (ok : Bool)

/-- `AppState` with the requests so far and `main`. -/
structure NodeServer where
  blockchainState : BlockchainState
  shutdownRequested : Bool
  db : Metadata
  wsServer : WebSocketServer
  tasks : List RpcTask
  main : MainPhase

/-- Who saves: a request, or `main`. -/
inductive Saver where
  | request (k : Nat)
  | main
  deriving DecidableEq

/-- What happens to a node: to one of its requests, to its WebSocket connections, or to `main`. -/
inductive NodeEvent where
  | arrive (request : RpcRequest)
  | update (k : Nat) (state : BlockchainState)
  | returned (k : Nat) (result : Except RpcError Value)
  | lock (k : Nat)
  | put (saver : Saver) (order : List (String × U128)) (failed : Option String)
  | answer (k : Nat) (now : U64)
  | accept (clientId : String) (now : U64)
  | turn (k : Nat) (turn : TaskTurn)
  | requestShutdown
  | drain
  | lockMain
  | unlockMain
  | flush (timestamp : Int) (failed : Option String)
  | verify (failed : Option String)

/-- The saves that are in progress or have just ended. -/
def RequestPhase.progress : RequestPhase → Option SaveProgress
  | saving _ progress => some progress
  | calling | returned _ | answered _ => none

def MainPhase.progress : MainPhase → Option SaveProgress
  | saving progress => some progress
  | serving | draining | finishing _ => none

/-- One more put of a save. The text of the balances is made right before the last one, which
waits for their lock and keeps it until it is done. -/
def saveStep (json : BalancesJson) (state : BlockchainState) (order : List (String × U128))
    (db : Metadata) (n : Nat) (failed : Option String) : Metadata × SaveProgress :=
  match (writes json state order)[n]?, failed with
  | some (key, value), none =>
    (db.insert key value, if n + 1 = 4 then .over true else .puts (n + 1))
  | _, _ => (db, .over false)

/-! ### A save by itself -/

section Steps

variable {json : BalancesJson} {db : Metadata} {state : BlockchainState}
  {order : List (String × U128)}

/-- A save that nothing interrupts, put by put. -/
def saveSteps (json : BalancesJson) (state : BlockchainState) (order : List (String × U128))
    (failures : List (Option String)) (s : Metadata × SaveProgress) : Metadata × SaveProgress :=
  failures.foldl (fun s failed ↦
    match s.2 with
    | .puts n => saveStep json state order s.1 n failed
    | .over _ => s) s

/-- The outcome of a put. -/
def putOutcome : Option String → PutOutcome
  | none => .done
  | some e => .failed e

/-- A save that is over does nothing more. -/
theorem saveSteps_over (failures : List (Option String)) (db : Metadata) (ok : Bool) :
    saveSteps json state order failures (db, .over ok) = (db, .over ok) := by
  induction failures with
  | nil => rfl
  | cons failed failures ih => exact ih

/-- A save has at most four puts. -/
theorem length_writes_le : (writes json state order).length ≤ 4 := by
  unfold writes
  split <;> simp

/-- The puts of a save that is at its put `n`. -/
theorem saveSteps_puts (failures : List (Option String)) (db : Metadata) (n : Nat) :
    (saveSteps json state order failures (db, .puts n)).1 =
      db.putAll (((writes json state order).drop n).take
        (DiskWriter.doneCount (failures.map putOutcome))) := by
  induction failures generalizing db n with
  | nil => rfl
  | cons failed failures ih =>
    change (saveSteps json state order failures (saveStep json state order db n failed)).1 = _
    cases hw : (writes json state order)[n]? with
    | none =>
      have hstep : saveStep json state order db n failed = (db, .over false) := by
        simp only [saveStep, hw]
      rw [hstep, saveSteps_over, List.drop_eq_nil_iff.mpr (List.getElem?_eq_none_iff.mp hw),
        List.take_nil]
      rfl
    | some w =>
      obtain ⟨hlt, hget⟩ := List.getElem?_eq_some_iff.mp hw
      cases failed with
      | some e =>
        have hstep : saveStep json state order db n (some e) = (db, .over false) := by
          simp only [saveStep, hw]
        rw [hstep, saveSteps_over]
        rfl
      | none =>
        have hstep : saveStep json state order db n none =
            (db.insert w.1 w.2, if n + 1 = 4 then .over true else .puts (n + 1)) := by
          simp only [saveStep, hw]
        rw [hstep, List.drop_eq_getElem_cons hlt, hget, List.map_cons, putOutcome,
          DiskWriter.doneCount_done, List.take_succ_cons, Table.putAll_cons]
        split
        · next hfour =>
          rw [saveSteps_over, List.drop_eq_nil_iff.mpr (by rw [hfour]; exact length_writes_le),
            List.take_nil]
          rfl
        · exact ih _ _

/-- A save that nothing interrupts leaves what `save_blockchain_state_to_db` leaves. -/
theorem saveSteps_eq_save (failures : List (Option String)) (db : Metadata) :
    (saveSteps json state order failures (db, .puts 0)).1 =
      (saveBlockchainStateToDb json state order ⟨db, failures.map putOutcome⟩).2.store := by
  rw [saveSteps_puts, puts_save, List.drop_zero]

end Steps

/-! ### The checks before the end -/

/-- `flush_key`, `src/bin/node.rs:383–384`. -/
def flushKey (timestamp : Int) : String := s!"__flush_verification_{timestamp}__"

/-- `integrity_key`, `src/bin/node.rs:402`. -/
def integrityKey : String := "__integrity_check__"

/-- `flush_database`, `src/bin/node.rs:381–398`: a key is put, read back and deleted. -/
def flushDatabase (timestamp : Int) (failed : Option String) (db : Metadata) :
    Except String Unit × Metadata :=
  match failed with
  | some e => (.error e, db)
  | none =>
    let db := db.insert (flushKey timestamp) (utf8 "flushed")
    if db.lookup (flushKey timestamp) = some (utf8 "flushed") then
      (.ok (), db.erase (flushKey timestamp))
    else (.error "Database flush verification failed", db)

/-- `verify_database_integrity`, `src/bin/node.rs:401–414`: a key is put and read back. -/
def verifyDatabaseIntegrity (failed : Option String) (db : Metadata) :
    Except String Unit × Metadata :=
  match failed with
  | some e => (.error e, db)
  | none =>
    let db := db.insert integrityKey (utf8 "integrity_verified")
    if db.lookup integrityKey = some (utf8 "integrity_verified") then (.ok (), db)
    else (.error "Database integrity check failed", db)

namespace NodeServer

/-- The saves that hold the read lock. -/
def saves (s : NodeServer) : List SaveProgress :=
  s.tasks.filterMap (·.phase.progress) ++ s.main.progress.toList

/-- The fields under the outer lock. -/
def outer (state : BlockchainState) : U64 × U64 × ℚ × Bool × String :=
  (state.blockCount, state.difficulty, state.hashrate, state.miningEnabled, state.miningAddress)

/-- A request goes on. -/
def setPhase (s : NodeServer) (k : Nat) (task : RpcTask) (phase : RequestPhase) : NodeServer :=
  { s with tasks := s.tasks.set k { task with phase } }

/-- The announcement of a block, `src/bin/node.rs:453–467`: a successful result that has a hash. -/
def announce (s : NodeServer) (result : Except RpcError Value) (now : U64) : WebSocketServer :=
  match result with
  | .ok value =>
    match (value.get "hash").bind Value.asStr with
    | some hash =>
      s.wsServer.broadcastNewBlock hash s.blockchainState.blockCount now
        s.blockchainState.miningAddress 50_000_000_000
    | none => s.wsServer
  | .error _ => s.wsServer

/-- The end of `handle_rpc`: after a save it announces the block. Other methods save nothing. -/
def answer (s : NodeServer) (k : Nat) (task : RpcTask) (now : U64) : Option NodeServer :=
  match task.phase with
  | .returned result =>
    if task.request.method = "submitblock" then none
    else some (s.setPhase k task (.answered (response task.request result)))
  | .saving result (.over _) =>
    some { s.setPhase k task (.answered (response task.request result)) with
      wsServer := s.announce result now }
  | _ => none

/-- The next put of a save. -/
def put (json : BalancesJson) (s : NodeServer) (order : List (String × U128))
    (failed : Option String) : Saver → Option NodeServer
  | .request k =>
    match s.tasks[k]? with
    | some ⟨request, .saving result (.puts n)⟩ =>
      let (db, progress) := saveStep json s.blockchainState order s.db n failed
      some { s.setPhase k ⟨request, .saving result (.puts n)⟩ (.saving result progress) with db }
    | _ => none
  | .main =>
    match s.main with
    | .saving (.puts n) =>
      let (db, progress) := saveStep json s.blockchainState order s.db n failed
      some { s with db, main := .saving progress }
    | _ => none

/-- The state may change: while a save holds the read lock, only under the inner locks. -/
def MayUpdate (s : NodeServer) (state : BlockchainState) : Prop :=
  s.saves = [] ∨ outer state = outer s.blockchainState

instance (s : NodeServer) (state : BlockchainState) : Decidable (s.MayUpdate state) :=
  inferInstanceAs (Decidable (_ ∨ _))

/-- The node after an event, if it can happen. -/
def step (json : BalancesJson) (kept : Nat) (s : NodeServer) : NodeEvent → Option NodeServer
  | .arrive request =>
    let phase := if s.shutdownRequested then .answered (refusal request) else .calling
    some { s with tasks := s.tasks ++ [⟨request, phase⟩] }
  | .update k state =>
    match s.tasks[k]? with
    | some ⟨_, .calling⟩ =>
      if s.MayUpdate state then some { s with blockchainState := state } else none
    | _ => none
  | .returned k result =>
    match s.tasks[k]? with
    | some ⟨request, .calling⟩ => some (s.setPhase k ⟨request, .calling⟩ (.returned result))
    | _ => none
  | .lock k =>
    match s.tasks[k]? with
    | some ⟨request, .returned result⟩ =>
      if request.method = "submitblock" then
        some (s.setPhase k ⟨request, .returned result⟩ (.saving result (.puts 0)))
      else none
    | _ => none
  | .put saver order failed =>
    if s.blockchainState.balances.Iterates order then s.put json order failed saver else none
  | .answer k now => do
    let task ← s.tasks[k]?
    s.answer k task now
  | .accept clientId now => do
    let wsServer ← s.wsServer.step kept (.accept clientId now)
    some { s with wsServer }
  | .turn k turn => do
    let wsServer ← s.wsServer.step kept (.turn k turn)
    some { s with wsServer }
  | .requestShutdown => some { s with shutdownRequested := true }
  | .drain =>
    match s.main with
    | .serving => some { s with shutdownRequested := true, main := .draining }
    | _ => none
  | .lockMain =>
    match s.main with
    | .draining => some { s with main := .saving (.puts 0) }
    | _ => none
  | .unlockMain =>
    match s.main with
    | .saving (.over ok) => some { s with main := .finishing ok }
    | _ => none
  | .flush timestamp failed =>
    match s.main with
    | .finishing _ => some { s with db := (flushDatabase timestamp failed s.db).2 }
    | _ => none
  | .verify failed =>
    match s.main with
    | .finishing _ => some { s with db := (verifyDatabaseIntegrity failed s.db).2 }
    | _ => none

/-- A node that has loaded its state, `src/bin/node.rs:166–244`. -/
def start (json : BalancesJson) (db : Metadata) : NodeServer :=
  ⟨startState json db, false, db, .new, [], .serving⟩

/-- The states of a node, with the events on the way. -/
abbrev NodeRun (json : BalancesJson) (kept : Nat) (db : Metadata) :
    List NodeEvent → NodeServer → Prop :=
  Run (fun s e s' ↦ s.step json kept e = some s') (start json db)

end NodeServer
end SilverPow.Node
