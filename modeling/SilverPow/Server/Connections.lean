import SilverPow.Server.Handler
import SilverPow.Work.Package

/-!
# The connections of the server

`src/stratum.rs:57–68`, `198–258`: the server accepts connections and runs a handler for each;
the handlers share the map of the clients. Their iterations come in any order. Connections
are known by the identifiers that their handlers draw, which are all different.

A handler that stops reading because of a read error, a write error or too many lines does
not remove its client. Such a client stays in the map and counts against `max_clients`.
-/

namespace SilverPow.Server

open SilverPow.Base SilverPow.Work

/-- The settings of the server, `src/stratum.rs:62–67`. -/
structure ServerConfig where
  maxClients : Nat
  handler : HandlerConfig
  ip : IpConfig

/-- The state of the server, with a handler or its end for each connection so far. -/
structure StratumServer where
  clients : Clients
  currentWork : Option WorkPackage
  ipRateLimits : Table IpAddr IpRateLimit
  connections : Table String (Except Exit Handler)

/-- What happens to the server. -/
inductive ServerEvent where
  /-- A connection from an address, with the clock for the block, for the limit and for the
  handler, its identifier, and how the first write goes. -/
  | accept (addr : SocketAddr) (checked now : Nat) (clientId : String) (started : Nat)
      (write : Except String Unit)
  /-- An iteration of the handler of a connection. -/
  | read (clientId : String) (e : ReadEvent)
  | setWork (work : WorkPackage)

namespace StratumServer

/-- `StratumServer::with_full_config`, `src/stratum.rs:108–140`. -/
def new : StratumServer := ⟨∅, none, ∅, ∅⟩

/-- `accept_connections` for one connection, `src/stratum.rs:201–251`. -/
def acceptConnection (config : ServerConfig) (s : StratumServer) (addr : SocketAddr)
    (checked now : Nat) (clientId : String) (started : Nat) (write : Except String Unit) :
    StratumServer :=
  let (decision, limits) := checkAttempt config.ip s.ipRateLimits ⟨addr.ip, checked, now⟩
  let s := { s with ipRateLimits := limits }
  if decision ≠ .admitted then s
  else if config.maxClients ≤ s.clients.entries.card then s
  else
    let handled := startClient s.clients clientId addr started write
    { s with
      clients := handled.clients
      connections := s.connections.insert clientId handled.next }

/-- An iteration of a handler that has not returned. -/
def readLine (config : ServerConfig) (fromJsonLine : String → Except String StratumMessage)
    (s : StratumServer) (clientId : String) (e : ReadEvent) : StratumServer :=
  match s.connections.lookup clientId with
  | some (.ok handler) =>
    let handled := handleRead config.handler fromJsonLine clientId handler s.clients e
    { s with
      clients := handled.clients
      connections := s.connections.insert clientId handled.next }
  | _ => s

/-- The server after an event. -/
def step (config : ServerConfig) (fromJsonLine : String → Except String StratumMessage)
    (s : StratumServer) : ServerEvent → StratumServer
  | .accept addr checked now clientId started write =>
    s.acceptConnection config addr checked now clientId started write
  | .read clientId e => s.readLine config fromJsonLine clientId e
  | .setWork work => { s with currentWork := some work }

/-- The identifier of a new connection is a new one. -/
def Fresh (s : StratumServer) : ServerEvent → Prop
  | .accept _ _ _ clientId _ _ => s.connections.lookup clientId = none
  | _ => True

/-- The server before and after an event. -/
def Step (config : ServerConfig) (fromJsonLine : String → Except String StratumMessage)
    (s : StratumServer) (e : ServerEvent) (s' : StratumServer) : Prop :=
  s.Fresh e ∧ s' = s.step config fromJsonLine e

/-- The states that a server reaches, with the events on the way. -/
abbrev ServerRun (config : ServerConfig)
    (fromJsonLine : String → Except String StratumMessage) :
    List ServerEvent → StratumServer → Prop :=
  Run (Step config fromJsonLine) new

/-- No client is stored for a connection whose handler has returned. -/
def NoGhosts (s : StratumServer) : Prop :=
  ∀ clientId exit, s.connections.lookup clientId = some (.error exit) →
    s.clients.lookup clientId = none

/-- A handler that leaves its loop for a read error, a write error or too many lines has
stored no client. -/
def LeavesNoClient (config : ServerConfig)
    (fromJsonLine : String → Except String StratumMessage) (s : StratumServer) :
    ServerEvent → Prop
  | .read clientId e => ∀ handler, s.connections.lookup clientId = some (.ok handler) →
    Breaks config.handler handler e ∨ WriteFails config.handler fromJsonLine handler e →
      s.clients.lookup clientId = none
  | _ => True

/-! ### What an event does -/

section Step

variable {config : ServerConfig} {fromJsonLine : String → Except String StratumMessage}
  {s : StratumServer} {clientId : String}

/-- A new connection stores no client. -/
theorem clients_acceptConnection (addr : SocketAddr) (checked now started : Nat)
    (write : Except String Unit) :
    (s.acceptConnection config addr checked now clientId started write).clients = s.clients := by
  unfold acceptConnection startClient Handled.write
  dsimp only
  split
  · rfl
  · split
    · rfl
    · cases write <;> rfl

/-- A new connection is the only one that appears. -/
theorem lookup_connections_acceptConnection (addr : SocketAddr) (checked now started : Nat)
    (write : Except String Unit) {k : String} (hk : k ≠ clientId) :
    (s.acceptConnection config addr checked now clientId started write).connections.lookup k =
      s.connections.lookup k := by
  unfold acceptConnection
  dsimp only
  split
  · rfl
  · split
    · rfl
    · exact Finmap.lookup_insert_of_ne _ hk

/-- A handler's iteration. -/
theorem readLine_of_handler {handler : Handler} (e : ReadEvent)
    (h : s.connections.lookup clientId = some (.ok handler)) :
    s.readLine config fromJsonLine clientId e =
      let handled := handleRead config.handler fromJsonLine clientId handler s.clients e
      { s with
        clients := handled.clients
        connections := s.connections.insert clientId handled.next } := by
  rw [readLine, h]

/-- Only handlers that have not returned read. -/
theorem readLine_of_ended (e : ReadEvent)
    (h : ∀ handler, s.connections.lookup clientId ≠ some (.ok handler)) :
    s.readLine config fromJsonLine clientId e = s := by
  unfold readLine
  split
  · next handler hl => exact absurd hl (h handler)
  · rfl

/-- An iteration of a handler that is not the one of a connection changes nothing of it. -/
theorem lookup_readLine_of_ne (config : ServerConfig)
    (fromJsonLine : String → Except String StratumMessage) (s : StratumServer)
    {clientId k : String} (e : ReadEvent) (hk : k ≠ clientId) :
    (s.readLine config fromJsonLine clientId e).clients.lookup k = s.clients.lookup k ∧
      (s.readLine config fromJsonLine clientId e).connections.lookup k =
        s.connections.lookup k := by
  by_cases h : ∃ handler, s.connections.lookup clientId = some (.ok handler)
  · obtain ⟨handler, h⟩ := h
    rw [readLine_of_handler e h]
    exact ⟨(iteration_handleRead _ _ _ _ _ _).lookup_of_ne hk,
      Finmap.lookup_insert_of_ne _ hk⟩
  · rw [readLine_of_ended e (not_exists.mp h)]
    exact ⟨rfl, rfl⟩

end Step

section Messages

/-- The handler of a connection handles a message. -/
structure Handles (config : ServerConfig)
    (fromJsonLine : String → Except String StratumMessage) (s : StratumServer) (e : ServerEvent)
    (clientId : String) (handler : Handler) (read : ReadEvent) (message : StratumMessage) :
    Prop where
  event : e = .read clientId read
  serving : s.connections.lookup clientId = some (.ok handler)
  handled : handledMessage config.handler fromJsonLine handler read = some message

variable {config : ServerConfig} {fromJsonLine : String → Except String StratumMessage}
  {s : StratumServer} {e : ServerEvent} {clientId : String} {handler : Handler}
  {read : ReadEvent} {message : StratumMessage}

/-- The clients after a message. -/
theorem Handles.clients_step
    (h : Handles config fromJsonLine s e clientId handler read message) :
    (s.step config fromJsonLine e).clients =
      messageClients clientId handler s.clients read message := by
  rw [h.event, step, readLine_of_handler read h.serving]
  exact ((iteration_handleRead _ _ _ _ _ _).of_message h.handled).1

/-- The record of a client after a message of it. -/
theorem Handles.lookup_step
    (h : Handles config fromJsonLine s e clientId handler read message)
    (hs : message.method ≠ "mining.subscribe") :
    (s.step config fromJsonLine e).clients.lookup clientId =
      (s.clients.lookup clientId).map fun client ↦
        if message.method = "mining.authorize" ∧ 2 ≤ message.params.length then
          { client with
            workerName := workerName message.params
            authorized := true
            lastActivity := read.now }
        else if message.method = "mining.submit" ∧ 5 ≤ message.params.length then
          { client with
            sharesAccepted := client.sharesAccepted + 1
            lastActivity := read.now }
        else client := by
  rw [h.clients_step, lookup_handleMessage, if_neg (not_not_intro rfl), if_neg hs]

/-- A record that an event stores belongs to the client of the message that it handles. -/
theorem handles_of_changed {client : StratumClient}
    (hl : (s.step config fromJsonLine e).clients.lookup clientId = some client)
    (hne : s.clients.lookup clientId ≠ some client) : ∃ handler read message,
      Handles config fromJsonLine s e clientId handler read message := by
  have hunchanged : ¬(s.step config fromJsonLine e).clients.lookup clientId =
      s.clients.lookup clientId := by
    rw [hl]
    exact hne.symm
  cases e with
  | accept addr checked now k started write =>
    exact absurd (by rw [step, clients_acceptConnection]) hunchanged
  | setWork work => exact absurd rfl hunchanged
  | read k read =>
    by_cases hk : clientId = k
    · subst hk
      by_cases hh : ∃ handler, s.connections.lookup clientId = some (.ok handler)
      · obtain ⟨handler, hh⟩ := hh
        cases hm : handledMessage config.handler fromJsonLine handler read with
        | some message => exact ⟨handler, read, message, rfl, hh, hm⟩
        | none =>
          rw [step, readLine_of_handler read hh] at hl
          exact absurd ((iteration_handleRead _ _ _ _ _ _).lookup_of_no_message hm hl) hne
      · exact absurd (by rw [step, readLine_of_ended read (not_exists.mp hh)]) hunchanged
    · exact absurd (lookup_readLine_of_ne config fromJsonLine s read hk).1 hunchanged

/-- An event handles one message. -/
theorem Handles.unique {handler' : Handler} {read' : ReadEvent} {message' : StratumMessage}
    (h : Handles config fromJsonLine s e clientId handler read message)
    (h' : Handles config fromJsonLine s e clientId handler' read' message') :
    message' = message := by
  cases h.event.symm.trans h'.event
  cases h.serving.symm.trans h'.serving
  exact Option.some.inj (h'.handled.symm.trans h.handled)

end Messages

section Runs

variable {config : ServerConfig} {fromJsonLine : String → Except String StratumMessage}
  {es : List ServerEvent} {s : StratumServer}

/-- Clients are stored for connections. -/
def Known (s : StratumServer) : Prop :=
  ∀ clientId, s.connections.lookup clientId = none → s.clients.lookup clientId = none

/-- Events keep that clients are stored for connections. -/
theorem known_step (e : ServerEvent) (h : s.Known) : (s.step config fromJsonLine e).Known := by
  intro k hk
  cases e with
  | accept addr checked now clientId started write =>
    rw [step, clients_acceptConnection]
    apply h
    by_cases hne : k = clientId
    · subst hne
      revert hk
      rw [step, acceptConnection]
      dsimp only
      split_ifs
      · exact id
      · exact id
      · rw [Finmap.lookup_insert]
        exact fun hn ↦ absurd hn (Option.some_ne_none _)
    · rwa [step, lookup_connections_acceptConnection _ _ _ _ _ hne] at hk
  | read clientId e =>
    by_cases hne : k = clientId
    · subst hne
      by_cases hl : ∃ handler, s.connections.lookup k = some (.ok handler)
      · obtain ⟨handler, hl⟩ := hl
        rw [step, readLine_of_handler e hl, Finmap.lookup_insert] at hk
        cases hk
      · rw [step, readLine_of_ended e (not_exists.mp hl)] at hk ⊢
        exact h k hk
    · obtain ⟨hc, hn⟩ := lookup_readLine_of_ne config fromJsonLine s e hne
      rw [step, hn] at hk
      rw [step, hc]
      exact h k hk
  | setWork work => exact h k hk

/-- From a state without ghosts an event leads to one without, exactly if it leaves no
client behind. -/
theorem noGhosts_step_iff {e : ServerEvent} (hn : s.NoGhosts) (hk : s.Known) (hf : s.Fresh e) :
    (s.step config fromJsonLine e).NoGhosts ↔ LeavesNoClient config fromJsonLine s e := by
  cases e with
  | accept addr checked now clientId started write =>
    refine iff_of_true ?_ trivial
    intro k exit hexit
    rw [step, clients_acceptConnection]
    by_cases hne : k = clientId
    · subst hne
      exact hk k hf
    · rw [step, lookup_connections_acceptConnection _ _ _ _ _ hne] at hexit
      exact hn k exit hexit
  | read clientId e =>
    by_cases hl : ∃ handler, s.connections.lookup clientId = some (.ok handler)
    · obtain ⟨handler, hl⟩ := hl
      have hi := iteration_handleRead config.handler fromJsonLine clientId handler s.clients e
      rw [LeavesNoClient, hl, NoGhosts, step, readLine_of_handler e hl]
      generalize handleRead config.handler fromJsonLine clientId handler s.clients e = handled
        at hi ⊢
      simp only [Option.some.injEq, Except.ok.injEq, forall_eq']
      constructor
      · intro hg hleft
        obtain ⟨exit, hexit⟩ := hi.exit_of_left hleft
        have hown := hg clientId exit (by rw [Finmap.lookup_insert, hexit])
        exact (hi.lookup_eq_none_iff hexit).mp hown hleft
      · intro hg k exit hexit
        by_cases hne : k = clientId
        · subst hne
          rw [Finmap.lookup_insert, Option.some_inj] at hexit
          exact (hi.lookup_eq_none_iff hexit).mpr hg
        · rw [Finmap.lookup_insert_of_ne _ hne] at hexit
          rw [hi.lookup_of_ne hne]
          exact hn k exit hexit
    · rw [step, readLine_of_ended e (not_exists.mp hl)]
      refine iff_of_true hn ?_
      intro handler hl'
      exact absurd ⟨handler, hl'⟩ hl
  | setWork work => exact iff_of_true hn trivial

/-- In every state of a run the map has no client of a handler that returned, exactly when
no handler leaves a client behind. -/
theorem noGhosts_iff (h : ServerRun config fromJsonLine es s) :
    Run.Always (Step config fromJsonLine) new (fun _ ↦ NoGhosts) es ↔
      Run (Guarded (LeavesNoClient config fromJsonLine) (Step config fromJsonLine)) new es s := by
  apply Run.always_iff_guarded (f := step config fromJsonLine) (I := Known) (K := NoGhosts)
    (fun _ _ _ hs ↦ hs.2) _ _ _ _ _ _ h
  · intro _ _
    rfl
  · intro clientId exit hexit
    cases hexit
  · rintro s e _ hk ⟨-, rfl⟩
    exact known_step e hk
  · rintro s e _ hk hn hg ⟨hf, rfl⟩
    exact (noGhosts_step_iff hn hk hf).mpr hg
  · intro s _ hn
    exact hn
  · rintro s e _ hk hn ⟨hf, rfl⟩ hn'
    exact (noGhosts_step_iff hn hk hf).mp hn'

end Runs

/-- The server with the settings of `StratumServer::new`, `src/stratum.rs:87–106`. -/
def defaultConfig : ServerConfig where
  maxClients := 10_000
  handler := ⟨300 * second, 100⟩
  ip := ⟨10, 3600 * second⟩

/-- A line that subscribes. -/
def subscribeLine : String :=
  "\x7b\"id\":1,\"method\":\"mining.subscribe\",\"params\":[]\x7d"

/-- What `serde_json` makes of that line. -/
def readSubscribe (line : String) : Except String StratumMessage :=
  if line = subscribeLine then .ok ⟨some 1, "mining.subscribe", []⟩ else .error "expected value"

/-- A connection subscribes. -/
def subscribeEvents : List ServerEvent :=
  [.accept ⟨.v4 0x7F000001, 50000⟩ 5 6 "client" 7 (.ok ()),
    .read "client" ⟨.line subscribeLine, 8, .ok ()⟩]

/-- A client that subscribes stays in the map after a read error. -/
theorem ghost_after_readError : ∃ s,
    ServerRun defaultConfig readSubscribe
        (subscribeEvents ++ [.read "client" ⟨.error "reset", 9, .ok ()⟩]) s ∧
      s.connections.lookup "client" = some (.error .readError) ∧ ¬s.NoGhosts := by
  refine ⟨_, .snoc (.snoc (.snoc .nil ⟨rfl, rfl⟩) ⟨trivial, rfl⟩) ⟨trivial, rfl⟩, rfl, ?_⟩
  intro hn
  have hl := hn "client" .readError rfl
  revert hl
  decide +kernel

/-- A run that meets the condition: the client subscribes and closes its stream. -/
theorem noGhosts_iff_closed : ∃ s,
    Run.Always (Step defaultConfig readSubscribe) new (fun _ ↦ NoGhosts)
        (subscribeEvents ++ [.read "client" ⟨.endOfStream, 9, .ok ()⟩]) ↔
      Run (Guarded (LeavesNoClient defaultConfig readSubscribe)
        (Step defaultConfig readSubscribe)) new
        (subscribeEvents ++ [.read "client" ⟨.endOfStream, 9, .ok ()⟩]) s :=
  ⟨_, noGhosts_iff (.snoc (.snoc (.snoc .nil ⟨rfl, rfl⟩) ⟨trivial, rfl⟩) ⟨trivial, rfl⟩)⟩

end StratumServer
end SilverPow.Server
