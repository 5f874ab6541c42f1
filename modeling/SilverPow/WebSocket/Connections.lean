import SilverPow.Base.Channel
import SilverPow.Stratum.Connection
import SilverPow.WebSocket.Subscriptions

/-!
# The connections of the WebSocket server

`src/websocket_server.rs:20–68`, `85–533`: the server sends events to a broadcast channel, and
runs a task for each connection, which takes turns between the frames of its client and the
events of the channel. The tasks share the table of clients. A turn ends where a task waits, so
the turns of the tasks and the events come in any order.
-/

namespace SilverPow.WebSocket

open SilverPow.Base SilverPow.Stratum

/-! ### Events -/

/-- `BlockchainEvent` with its fields, `src/websocket_server.rs:21–68`; floats are given by
their bits. -/
inductive FullEvent where
  | newBlock (hash : String) (height timestamp : U64) (miner : String) (reward : U64)
  | newTransaction (txid fromAddress toAddress : String) (amount fee timestamp : U64)
  | transactionConfirmed (txid blockHash : String) (blockHeight : U64) (confirmations : U32)
  | balanceChanged (address : String) (oldBalance newBalance timestamp : U64)
  | difficultyAdjusted (oldDifficulty newDifficulty timestamp : U64)
  | networkStats (peers : U32) (hashrate blocks transactions : U64)
  deriving DecidableEq

/-- A JSON number. -/
def word (n : U64) : Value := .number (.posInt n)

namespace FullEvent

/-- The event without the fields that are only written into its message. -/
def kind : FullEvent → BlockchainEvent
  | newBlock .. => .newBlock
  | newTransaction .. => .newTransaction
  | transactionConfirmed .. => .transactionConfirmed
  | balanceChanged address .. => .balanceChanged address
  | difficultyAdjusted .. => .difficultyAdjusted
  | networkStats .. => .networkStats

/-- The message of an event, `src/websocket_server.rs:447–504`. -/
def message : FullEvent → Value
  | newBlock hash height timestamp miner reward =>
    .object [("type", .string "block"), ("hash", .string hash), ("height", word height),
      ("timestamp", word timestamp), ("miner", .string miner), ("reward", word reward)]
  | newTransaction txid fromAddress toAddress amount fee timestamp =>
    .object [("type", .string "transaction"), ("txid", .string txid),
      ("from", .string fromAddress), ("to", .string toAddress), ("amount", word amount),
      ("fee", word fee), ("timestamp", word timestamp)]
  | transactionConfirmed txid blockHash blockHeight confirmations =>
    .object [("type", .string "transaction_confirmed"), ("txid", .string txid),
      ("block_hash", .string blockHash), ("block_height", word blockHeight),
      ("confirmations", word (confirmations.setWidth 64))]
  | balanceChanged address oldBalance newBalance timestamp =>
    .object [("type", .string "balance_changed"), ("address", .string address),
      ("old_balance", word oldBalance), ("new_balance", word newBalance),
      ("timestamp", word timestamp)]
  | difficultyAdjusted oldDifficulty newDifficulty timestamp =>
    .object [("type", .string "difficulty_adjusted"),
      ("old_difficulty", floatValue oldDifficulty), ("new_difficulty", floatValue newDifficulty),
      ("timestamp", word timestamp)]
  | networkStats peers hashrate blocks transactions =>
    .object [("type", .string "network_stats"), ("peers", word (peers.setWidth 64)),
      ("hashrate", word hashrate), ("blocks", word blocks), ("transactions", word transactions)]

end FullEvent

/-! ### Frames of a client -/

/-- What the task reads from its client, `src/websocket_server.rs:297–413`: a text comes as the
JSON value that it holds, if any. -/
inductive Frame where
  | text (request : Option Value)
  | binary
  | ping (data : Bytes)
  | pong
  | raw
  | close
  | error
  | ended

/-- What the task writes to its client. -/
inductive Outgoing where
  | text (message : Value)
  | pong (data : Bytes)

/-- The message to a client that has connected, `src/websocket_server.rs:282–290`. -/
def welcome (now : U64) : Value :=
  .object [("type", .string "connected"),
    ("message", .string "Connected to SilverBitcoin WebSocket Server"),
    ("version", .string "2.5.3"), ("timestamp", word now)]

/-- The reply to a request, `src/websocket_server.rs:302–371`: to a subscription that is not on
the list of the client, and to a ping. -/
def replyTo (client : Option ClientConnection) (request : Value) (now : U64) : Option Value :=
  match (request.get "action").bind Value.asStr with
  | some action =>
    if action = "subscribe" then
      match (request.get "channel").bind Value.asStr with
      | some channel =>
        match parseChannel channel, client with
        | some sub, some client =>
          if sub ∈ client.subscriptions then none
          else some (.object [("type", .string "subscribed"), ("channel", .string channel),
            ("timestamp", word now)])
        | _, _ => none
      | none => none
    else if action = "ping" then
      some (.object [("type", .string "pong"), ("timestamp", word now)])
    else none
  | none => none

namespace Frame

/-- What a frame does to the client. -/
def apply (client : ClientConnection) : Frame → ClientConnection
  | text (some request) => client.handleRequest request
  | _ => client

/-- What the task writes in reply to a frame. -/
def reply (client : Option ClientConnection) (now : U64) : Frame → Option Outgoing
  | text (some request) => (replyTo client request now).map .text
  | ping data => some (.pong data)
  | _ => none

/-- The loop ends with this frame. -/
def ends : Frame → Bool
  | close | error | ended => true
  | _ => false

end Frame

/-! ### The tasks -/

/-- Where a task of `handle_connection` stands: its client is in the table, it has subscribed to
the events, it waits in its loop, it holds an event that it has received, it has left the loop,
it has removed its client, or it has ended because the first message could not be written. -/
inductive Phase where
  | inserted
  | subscribed
  | looping
  | holding (event : FullEvent)
  | leaving
  | removed
  | failed
  deriving DecidableEq

/-- A task has ended. -/
def Phase.Over (phase : Phase) : Prop := phase = .removed ∨ phase = .failed

instance (phase : Phase) : Decidable phase.Over := inferInstanceAs (Decidable (_ ∨ _))

/-- The variables of `handle_connection`: the client's name, the number of the receiver's next
event, and what has been written to the client. -/
structure ConnectionTask where
  clientId : String
  phase : Phase
  next : Nat
  outbox : List Outgoing

/-- A turn of a task, with the clock and whether its message can be written. -/
inductive TaskTurn where
  | subscribe
  | welcome (now : U64) (written : Bool)
  | read (frame : Frame) (now : U64) (written : Bool)
  | recv
  | deliver (written : Bool)
  | remove

namespace ConnectionTask

/-- A turn of a task over the events sent so far and its entry in the table of clients, if the
task can take the turn; `src/websocket_server.rs:263–532`. The task holds a sender itself, so
the channel is not closed. -/
def turn (kept : Nat) (events : List FullEvent) (task : ConnectionTask)
    (entry : Option ClientConnection) (turn : TaskTurn) :
    Option (ConnectionTask × Option ClientConnection) :=
  match turn, task.phase with
  | .subscribe, .inserted =>
    some ({ task with phase := .subscribed, next := events.length }, entry)
  | .welcome now true, .subscribed =>
    some ({ task with phase := .looping, outbox := task.outbox ++ [.text (welcome now)] }, entry)
  | .welcome _ false, .subscribed => some ({ task with phase := .failed }, entry)
  | .read frame now written, .looping =>
    some ({ task with
      phase := if frame.ends then .leaving else .looping
      outbox := task.outbox ++ if written then (frame.reply entry now).toList else [] },
      entry.map (Frame.apply · frame))
  | .recv, .looping =>
    match recv kept events task.next with
    | some (.value event, next) => some ({ task with phase := .holding event, next }, entry)
    | some (.lagged _, next) => some ({ task with next }, entry)
    | none => none
  | .deliver written, .holding event =>
    if entry.any (·.shouldSend event.kind) then
      if written then
        some ({ task with
          phase := .looping
          outbox := task.outbox ++ [.text event.message] }, entry)
      else some ({ task with phase := .leaving }, entry)
    else some ({ task with phase := .looping }, entry)
  | .remove, .leaving => some ({ task with phase := .removed }, none)
  | _, _ => none

end ConnectionTask

/-! ### The server -/

/-- `WebSocketServer`, `src/websocket_server.rs:93–100`, with the events sent and the tasks. -/
structure WebSocketServer where
  eventTx : List FullEvent
  clients : Table String ClientConnection
  tasks : List ConnectionTask

/-- The capacity of the channel, `src/websocket_server.rs:105`; it may keep more events. -/
def eventCapacity : Nat := 1000

/-- What happens to the server: a connection is accepted and its client entered, an event is
sent, or a task takes a turn. -/
inductive ServerEvent where
  | accept (clientId : String) (now : U64)
  | send (event : FullEvent)
  | turn (k : Nat) (turn : TaskTurn)

namespace WebSocketServer

/-- `WebSocketServer::new`, `src/websocket_server.rs:104–112`. -/
def new : WebSocketServer := ⟨[], ∅, []⟩

/-- `event_tx.send`; without a receiver nobody sees the event. -/
def send (s : WebSocketServer) (event : FullEvent) : WebSocketServer :=
  { s with eventTx := s.eventTx ++ [event] }

section Broadcast

variable (s : WebSocketServer)

/-- `broadcast_new_block`, `src/websocket_server.rs:137–154`. -/
def broadcastNewBlock (hash : String) (height timestamp : U64) (miner : String) (reward : U64) :
    WebSocketServer :=
  s.send (.newBlock hash height timestamp miner reward)

/-- `broadcast_new_transaction`, `src/websocket_server.rs:157–176`. -/
def broadcastNewTransaction (txid fromAddress toAddress : String) (amount fee timestamp : U64) :
    WebSocketServer :=
  s.send (.newTransaction txid fromAddress toAddress amount fee timestamp)

/-- `broadcast_transaction_confirmed`, `src/websocket_server.rs:179–194`. -/
def broadcastTransactionConfirmed (txid blockHash : String) (blockHeight : U64)
    (confirmations : U32) : WebSocketServer :=
  s.send (.transactionConfirmed txid blockHash blockHeight confirmations)

/-- `broadcast_balance_changed`, `src/websocket_server.rs:197–212`. -/
def broadcastBalanceChanged (address : String) (oldBalance newBalance timestamp : U64) :
    WebSocketServer :=
  s.send (.balanceChanged address oldBalance newBalance timestamp)

/-- `broadcast_difficulty_adjusted`, `src/websocket_server.rs:215–228`. -/
def broadcastDifficultyAdjusted (oldDifficulty newDifficulty timestamp : U64) : WebSocketServer :=
  s.send (.difficultyAdjusted oldDifficulty newDifficulty timestamp)

/-- `broadcast_network_stats`, `src/websocket_server.rs:231–246`. -/
def broadcastNetworkStats (peers : U32) (hashrate blocks transactions : U64) : WebSocketServer :=
  s.send (.networkStats peers hashrate blocks transactions)

end Broadcast

/-- Store or remove an entry of the table of clients. -/
def setEntry (clients : Table String ClientConnection) (clientId : String) :
    Option ClientConnection → Table String ClientConnection
  | some client => clients.insert clientId client
  | none => clients.erase clientId

/-- The server after an event, if the event can happen. -/
def step (kept : Nat) (s : WebSocketServer) : ServerEvent → Option WebSocketServer
  | .accept clientId now =>
    some { s with
      clients := s.clients.insert clientId (.new now)
      tasks := s.tasks ++ [⟨clientId, .inserted, 0, []⟩] }
  | .send event => some (s.send event)
  | .turn k turn => do
    let task ← s.tasks[k]?
    let (task', entry) ← task.turn kept s.eventTx (s.clients.lookup task.clientId) turn
    return { s with
      clients := setEntry s.clients task.clientId entry
      tasks := s.tasks.set k task' }

/-- A new connection has another address than those that have not ended. -/
def FreeAddress (s : WebSocketServer) : ServerEvent → Prop
  | .accept clientId _ => ∀ task ∈ s.tasks, task.clientId = clientId → task.phase.Over
  | .send _ | .turn .. => True

/-- One event. -/
abbrev Happens (kept : Nat) : WebSocketServer → ServerEvent → WebSocketServer → Prop :=
  Guarded FreeAddress fun s e s' ↦ s.step kept e = some s'

/-- Runs of a server. -/
abbrev ServerRun (kept : Nat) : List ServerEvent → WebSocketServer → Prop := Run (Happens kept) new

end WebSocketServer

/-- The frame that a turn reads. -/
def TaskTurn.frame : TaskTurn → Option Frame
  | read frame .. => some frame
  | subscribe | welcome .. | recv | deliver _ | remove => none

/-- The frame that an event lets a task read. -/
def ServerEvent.frameOf (k : Nat) : ServerEvent → Option Frame
  | turn k' taken => if k' = k then taken.frame else none
  | accept .. | send _ => none

/-- The frames that a task has read. -/
def framesOf (k : Nat) (es : List ServerEvent) : List Frame := es.filterMap (·.frameOf k)

/-- The event that is sent. -/
def ServerEvent.sent : ServerEvent → Option FullEvent
  | send event => some event
  | accept .. | turn .. => none

/-- The events that were sent. -/
def sentEvents (es : List ServerEvent) : List FullEvent := es.filterMap ServerEvent.sent

/-- A task subscribed when this many events had been sent. -/
def SubscribedAfter (k : Nat) (es : List ServerEvent) (sent : Nat) : Prop :=
  ∃ before after, es = before ++ .turn k .subscribe :: after ∧ (sentEvents before).length = sent

theorem SubscribedAfter.concat {k : Nat} {es : List ServerEvent} {sent : Nat}
    (h : SubscribedAfter k es sent) (e : ServerEvent) : SubscribedAfter k (es ++ [e]) sent := by
  obtain ⟨before, after, rfl, hs⟩ := h
  exact ⟨before, after ++ [e], by simp, hs⟩

/-! ### What a turn does -/

/-- The turns that a task can take, one after another. -/
inductive Takes (kept : Nat) (events : List FullEvent) (task : ConnectionTask)
    (entry : Option ClientConnection) :
    TaskTurn → ConnectionTask → Option ClientConnection → Prop
  | subscribe (h : task.phase = .inserted) :
      Takes kept events task entry .subscribe
        { task with phase := .subscribed, next := events.length } entry
  | welcomed (h : task.phase = .subscribed) (now : U64) :
      Takes kept events task entry (.welcome now true)
        { task with phase := .looping, outbox := task.outbox ++ [.text (welcome now)] } entry
  | failed (h : task.phase = .subscribed) (now : U64) :
      Takes kept events task entry (.welcome now false) { task with phase := .failed } entry
  | read (h : task.phase = .looping) (frame : Frame) (now : U64) (written : Bool) :
      Takes kept events task entry (.read frame now written)
        { task with
          phase := if frame.ends then .leaving else .looping
          outbox := task.outbox ++ if written then (frame.reply entry now).toList else [] }
        (entry.map (Frame.apply · frame))
  | received (h : task.phase = .looping) {event : FullEvent} {next : Nat}
      (hr : recv kept events task.next = some (.value event, next)) :
      Takes kept events task entry .recv { task with phase := .holding event, next } entry
  | lagged (h : task.phase = .looping) {missed next : Nat}
      (hr : recv kept events task.next = some (.lagged missed, next)) :
      Takes kept events task entry .recv { task with next } entry
  | delivered {event : FullEvent} (h : task.phase = .holding event)
      (hs : entry.any (·.shouldSend event.kind) = true) :
      Takes kept events task entry (.deliver true)
        { task with phase := .looping, outbox := task.outbox ++ [.text event.message] } entry
  | broken {event : FullEvent} (h : task.phase = .holding event) :
      Takes kept events task entry (.deliver false) { task with phase := .leaving } entry
  | skipped {event : FullEvent} (h : task.phase = .holding event)
      (hs : ¬entry.any (·.shouldSend event.kind) = true) (written : Bool) :
      Takes kept events task entry (.deliver written) { task with phase := .looping } entry
  | remove (h : task.phase = .leaving) :
      Takes kept events task entry .remove { task with phase := .removed } none

/-- A turn is one of these. -/
theorem takes_of_turn {kept : Nat} {events : List FullEvent} {task task' : ConnectionTask}
    {entry entry' : Option ClientConnection} {turn : TaskTurn}
    (h : task.turn kept events entry turn = some (task', entry')) :
    Takes kept events task entry turn task' entry' := by
  unfold ConnectionTask.turn at h
  split at h
  · next hp =>
    cases h
    exact .subscribe hp
  · next hp =>
    cases h
    exact .welcomed hp _
  · next hp =>
    cases h
    exact .failed hp _
  · next hp =>
    cases h
    exact .read hp _ _ _
  · next hp =>
    split at h
    · next hr =>
      cases h
      exact .received hp hr
    · next hr =>
      cases h
      exact .lagged hp hr
    · cases h
  · next event hp =>
    split at h
    · next hs =>
      split at h
      · next hw =>
        cases h
        cases hw
        exact .delivered hp hs
      · next hw =>
        cases h
        cases Bool.eq_false_of_not_eq_true hw
        exact .broken hp
    · next hs =>
      cases h
      exact .skipped hp hs _
  · next hp =>
    cases h
    exact .remove hp
  · cases h

/-- A task keeps the name of its client. -/
theorem Takes.clientId_eq {kept : Nat} {events : List FullEvent} {task task' : ConnectionTask}
    {entry entry' : Option ClientConnection} {turn : TaskTurn}
    (h : Takes kept events task entry turn task' entry') : task'.clientId = task.clientId := by
  cases h <;> rfl

/-- A task that has ended takes no turn. -/
theorem Takes.not_over {kept : Nat} {events : List FullEvent} {task task' : ConnectionTask}
    {entry entry' : Option ClientConnection} {turn : TaskTurn}
    (h : Takes kept events task entry turn task' entry') : ¬task.phase.Over := by
  cases h <;> simp_all [Phase.Over]

namespace WebSocketServer

theorem lookup_setEntry (clients : Table String ClientConnection) (clientId a : String)
    (entry : Option ClientConnection) :
    (setEntry clients clientId entry).lookup a =
      if a = clientId then entry else clients.lookup a := by
  cases entry with
  | some client =>
    rw [setEntry]
    split
    · next h => rw [h, Finmap.lookup_insert]
    · next h => rw [Finmap.lookup_insert_of_ne _ h]
  | none =>
    rw [setEntry]
    split
    · next h => rw [h, Finmap.lookup_erase]
    · next h => rw [Finmap.lookup_erase_ne h]

/-- A turn of a task, taken apart. -/
theorem step_turn {kept : Nat} {s s' : WebSocketServer} {k : Nat} {turn : TaskTurn}
    (h : s.step kept (.turn k turn) = some s') :
    ∃ task task' entry, s.tasks[k]? = some task ∧
      Takes kept s.eventTx task (s.clients.lookup task.clientId) turn task' entry ∧
      s' = { s with
        clients := setEntry s.clients task.clientId entry
        tasks := s.tasks.set k task' } := by
  rw [step] at h
  obtain ⟨task, ht, h⟩ := Option.bind_eq_some_iff.mp h
  obtain ⟨⟨task', entry⟩, hturn, h⟩ := Option.bind_eq_some_iff.mp h
  cases h
  exact ⟨task, task', entry, ht, takes_of_turn hturn, rfl⟩

end WebSocketServer

end SilverPow.WebSocket
