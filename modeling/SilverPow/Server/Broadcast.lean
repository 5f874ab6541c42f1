import SilverPow.Server.Connections
import SilverPow.Stratum.Notify

/-!
# The broadcast of work

`broadcast_work`, `src/stratum.rs:440–590`. A client is ready when it has subscribed and is
authorized, and the work goes over its channel. But `mining.subscribe` stores every client
without a channel, so no ready client is reached and the broadcast fails.
-/

namespace SilverPow.Server

open SilverPow.Base SilverPow.Work SilverPow.Stratum

/-- The counts of the loop over the clients, and the messages sent. -/
structure Tally where
  broadcastCount : U32
  failedCount : U32
  failedClients : List String
  sent : List (String × Value)

/-- A broadcast: its result, none if it panics, and the messages sent to the clients. -/
structure Broadcast where
  result : Option (Except PoWError Unit)
  sent : List (String × Value)

/-- One client of the loop, `src/stratum.rs:497–549`. A channel takes a message while its
receiver is alive. -/
def Tally.send (alive : Nat → Bool) (message : Value) (tally : Tally)
    (entry : String × StratumClient) : Tally :=
  let (clientId, client) := entry
  if ¬client.subscribed then tally
  else if ¬client.authorized then tally
  else
    match client.sender with
    | some sender =>
      if alive sender then
        { tally with
          broadcastCount := tally.broadcastCount + 1
          sent := tally.sent ++ [(clientId, message)] }
      else
        { tally with
          failedCount := tally.failedCount + 1
          failedClients := tally.failedClients ++ [clientId] }
    | none =>
      { tally with
        failedCount := tally.failedCount + 1
        failedClients := tally.failedClients ++ [clientId] }

/-- `broadcast_work`, with the clients in the order of the map's iteration. Where the level
`info` is logged, the first eight bytes of the work's identifier are taken for the log. -/
def broadcastWork (c : Crates) (floatBits : U64 → U32) (alive : Nat → Bool) (infoLogged : Bool)
    (work : Option WorkPackage) (clients : List (String × StratumClient)) : Broadcast :=
  match work with
  | none => ⟨some (.ok ()), []⟩
  | some work =>
    if clients = [] then ⟨some (.ok ()), []⟩
    else if infoLogged ∧ work.workId.length < 8 then ⟨none, []⟩
    else
      let tally := clients.foldl (Tally.send alive (notifyMessage c floatBits work)) ⟨0, 0, [], []⟩
      let count := clients.length
      if tally.broadcastCount = 0 then
        ⟨some (.error (.poolError s!"Failed to broadcast work to any of {count} clients")),
          tally.sent⟩
      else ⟨some (.ok ()), tally.sent⟩

/-- A list of the entries of a map, in some order of iteration. -/
def IterationOf (clients : Clients) (order : List (String × StratumClient)) : Prop :=
  (order : Multiset (String × StratumClient)) = clients.entries.map fun e ↦ (e.1, e.2)

/-- A client that is to receive work. -/
def StratumClient.Ready (client : StratumClient) : Prop :=
  client.subscribed = true ∧ client.authorized = true

instance (client : StratumClient) : Decidable client.Ready := inferInstanceAs (Decidable (_ ∧ _))

/-- A ready client whose channel takes messages. -/
def StratumClient.receives (alive : Nat → Bool) (client : StratumClient) : Bool :=
  client.subscribed && client.authorized && client.sender.any alive

section Loop

variable (alive : Nat → Bool) (message : Value)

/-- One client of the loop: it is sent the message, and counted, if its channel takes it. -/
theorem send_eq (tally : Tally) (entry : String × StratumClient) :
    (tally.send alive message entry).sent = tally.sent ++
        (if entry.2.receives alive then [(entry.1, message)] else []) ∧
      (tally.send alive message entry).broadcastCount = tally.broadcastCount +
        (if entry.2.receives alive then 1 else 0) := by
  unfold Tally.send StratumClient.receives
  rcases entry with ⟨clientId, _, _, _, subscribed, authorized, _, _, _, _, _, sender⟩
  cases subscribed with
  | false => simp
  | true =>
    cases authorized with
    | false => simp
    | true =>
      cases sender with
      | none => simp
      | some sender => cases h : alive sender <;> simp [h]

/-- The clients that a broadcast reaches, in the order of the loop. -/
def reached (alive : Nat → Bool) (order : List (String × StratumClient)) :
    List (String × StratumClient) :=
  order.filter fun entry ↦ entry.2.receives alive

/-- The loop over the clients: those that receive the message, in order, and their number. -/
theorem foldl_send (tally : Tally) (order : List (String × StratumClient)) :
    (order.foldl (Tally.send alive message) tally).sent = tally.sent ++
        (reached alive order).map (·.1, message) ∧
      (order.foldl (Tally.send alive message) tally).broadcastCount = tally.broadcastCount +
        BitVec.ofNat 32 (reached alive order).length := by
  induction order generalizing tally with
  | nil => simp [reached]
  | cons entry order ih =>
    obtain ⟨hsent, hcount⟩ := send_eq alive message tally entry
    rw [List.foldl_cons, (ih _).1, (ih _).2, hsent, hcount]
    by_cases hr : entry.2.receives alive = true
    · have hcons : reached alive (entry :: order) = entry :: reached alive order :=
        List.filter_cons_of_pos hr
      rw [if_pos hr, if_pos hr, hcons, List.map_cons, List.length_cons, Nat.add_comm,
        BitVec.ofNat_add, BitVec.add_assoc, List.append_assoc]
      exact ⟨rfl, rfl⟩
    · have hcons : reached alive (entry :: order) = reached alive order :=
        List.filter_cons_of_neg hr
      rw [if_neg hr, if_neg hr, hcons, List.append_nil, add_zero]
      exact ⟨rfl, rfl⟩

end Loop

/-- The messages of a broadcast that does not panic, and when it succeeds. -/
theorem broadcastWork_eq (c : Crates) (floatBits : U64 → U32) (alive : Nat → Bool)
    {infoLogged : Bool} {work : WorkPackage} {order : List (String × StratumClient)}
    (hne : order ≠ []) (hlog : ¬(infoLogged = true ∧ work.workId.length < 8)) :
    let broadcast := broadcastWork c floatBits alive infoLogged (some work) order
    broadcast.sent = (reached alive order).map (·.1, notifyMessage c floatBits work) ∧
      (broadcast.result = some (.ok ()) ↔ BitVec.ofNat 32 (reached alive order).length ≠ 0) := by
  obtain ⟨hs, hc⟩ := foldl_send alive (notifyMessage c floatBits work) ⟨0, 0, [], []⟩ order
  change _ = [] ++ _ at hs
  change _ = 0 + _ at hc
  rw [List.nil_append] at hs
  rw [zero_add] at hc
  unfold broadcastWork
  dsimp only
  rw [if_neg hne, if_neg hlog, hc]
  split
  · next h => exact ⟨hs, iff_of_false (by simp) (fun hn ↦ hn h)⟩
  · next h => exact ⟨hs, iff_of_true rfl h⟩

/-- In an iteration over a map each client appears once. -/
theorem filter_key_of_iteration {clients : Clients} {order : List (String × StratumClient)}
    (ho : IterationOf clients order) {k : String} {client : StratumClient}
    (hl : clients.lookup k = some client) : order.filter (·.1 = k) = [(k, client)] := by
  apply Table.filter_key_eq_singleton
  · have hkeys : ((order.map Prod.fst : List String) : Multiset String) =
        clients.entries.map Sigma.fst := by
      rw [← Multiset.map_coe, ho, Multiset.map_map]
      rfl
    rw [← Multiset.coe_nodup, hkeys]
    exact clients.nodupKeys.nodup_keys
  · rw [← Multiset.mem_coe, ho]
    exact Multiset.mem_map.mpr ⟨⟨k, client⟩, Finmap.lookup_eq_some_iff.mp hl, rfl⟩

/-- A broadcast that does not panic sends a client the message once, if its channel takes it,
and not at all otherwise. -/
theorem filter_sent_broadcastWork (c : Crates) (floatBits : U64 → U32) (alive : Nat → Bool)
    {infoLogged : Bool} {work : WorkPackage} {clients : Clients}
    {order : List (String × StratumClient)} (ho : IterationOf clients order)
    (hlog : ¬(infoLogged = true ∧ work.workId.length < 8)) {k : String} {client : StratumClient}
    (hl : clients.lookup k = some client) :
    (broadcastWork c floatBits alive infoLogged (some work) order).sent.filter (·.1 = k) =
      if client.receives alive then [(k, notifyMessage c floatBits work)] else [] := by
  have hkey := filter_key_of_iteration ho hl
  have hne : order ≠ [] := by
    rintro rfl
    cases hkey
  rw [(broadcastWork_eq c floatBits alive hne hlog).1, List.filter_map, reached, List.filter_filter]
  have hswap : order.filter (fun entry ↦ decide (entry.1 = k) && entry.2.receives alive) =
      [(k, client)].filter fun entry ↦ entry.2.receives alive := by
    rw [← hkey, List.filter_filter]
    apply List.filter_congr
    intro entry _
    exact Bool.and_comm _ _
  change (order.filter fun entry ↦ decide (entry.1 = k) && entry.2.receives alive).map _ = _
  rw [hswap]
  cases hr : client.receives alive <;> simp [hr]

/-! ### Reachable states -/

namespace StratumServer

variable {config : ServerConfig} {fromJsonLine : String → Except String StratumMessage}
  {es : List ServerEvent} {s : StratumServer}

/-- No client has a channel. -/
def NoChannel (s : StratumServer) : Prop :=
  ∀ clientId client, s.clients.lookup clientId = some client → client.sender = none

/-- Events keep that no client has a channel. -/
theorem noChannel_step (e : ServerEvent) (h : s.NoChannel) :
    (s.step config fromJsonLine e).NoChannel := by
  intro k client hl
  by_cases hold : s.clients.lookup k = some client
  · exact h k client hold
  · obtain ⟨handler, read, message, hh⟩ := handles_of_changed hl hold
    by_cases hs : message.method = "mining.subscribe"
    · rw [hh.clients_step, lookup_handleMessage, if_neg (not_not_intro rfl), if_pos hs,
        Option.some_inj] at hl
      rw [← hl]
      rfl
    · rw [hh.lookup_step hs] at hl
      obtain ⟨client', hl', rfl⟩ := Option.map_eq_some_iff.mp hl
      have hn := h k client' hl'
      split_ifs <;> exact hn

/-- In no state of a run has a client a channel. -/
theorem noChannel_of_run (h : ServerRun config fromJsonLine es s) : s.NoChannel := by
  apply h.invariant NoChannel
  · intro _ _ hl
    cases hl
  · rintro s e _ hs ⟨-, rfl⟩
    exact noChannel_step e hs

/-- A broadcast succeeds and sends each ready client the work exactly once. -/
structure Delivers (c : Crates) (floatBits : U64 → U32) (alive : Nat → Bool)
    (infoLogged : Bool) (s : StratumServer) (work : WorkPackage)
    (order : List (String × StratumClient)) : Prop where
  ok : (broadcastWork c floatBits alive infoLogged s.currentWork order).result = some (.ok ())
  once : ∀ clientId client, s.clients.lookup clientId = some client → client.Ready →
    (broadcastWork c floatBits alive infoLogged s.currentWork order).sent.filter
      (·.1 = clientId) = [(clientId, notifyMessage c floatBits work)]

/-- In a state of a run with work and a client, nobody is sent the work, and the broadcast
does not succeed. -/
theorem broadcast_fails (c : Crates) (floatBits : U64 → U32) (alive : Nat → Bool)
    (infoLogged : Bool) (h : ServerRun config fromJsonLine es s) {work : WorkPackage}
    (hw : s.currentWork = some work) {order : List (String × StratumClient)}
    (ho : IterationOf s.clients order) (hne : order ≠ []) :
    (broadcastWork c floatBits alive infoLogged s.currentWork order).sent = [] ∧
      (broadcastWork c floatBits alive infoLogged s.currentWork order).result ≠ some (.ok ()) := by
  have hnone : reached alive order = [] := by
    apply List.filter_eq_nil_iff.mpr
    rintro ⟨k, client⟩ hm
    rw [← Multiset.mem_coe, ho, Multiset.mem_map] at hm
    obtain ⟨e, he, heq⟩ := hm
    cases heq
    have hs := noChannel_of_run h _ _ (Finmap.lookup_eq_some_iff.mpr he)
    simp [StratumClient.receives, hs]
  rw [hw]
  by_cases hlog : infoLogged = true ∧ work.workId.length < 8
  · have hpanic : broadcastWork c floatBits alive infoLogged (some work) order = ⟨none, []⟩ := by
      unfold broadcastWork
      dsimp only
      rw [if_neg hne, if_pos hlog]
    rw [hpanic]
    exact ⟨rfl, by simp⟩
  · obtain ⟨hsent, hok⟩ := broadcastWork_eq c floatBits alive hne hlog
    rw [hsent, ne_eq, hok, hnone]
    exact ⟨rfl, fun hn ↦ hn rfl⟩

/-- In a state of a run with work and a ready client, the work is not delivered: the
broadcast sends nothing and does not succeed. -/
theorem not_delivers (c : Crates) (floatBits : U64 → U32) (alive : Nat → Bool)
    (infoLogged : Bool) (h : ServerRun config fromJsonLine es s) {work : WorkPackage}
    (hw : s.currentWork = some work) {order : List (String × StratumClient)}
    (ho : IterationOf s.clients order)
    (hr : ∃ clientId client, s.clients.lookup clientId = some client ∧ client.Ready) :
    ¬Delivers c floatBits alive infoLogged s work order ∧
      (broadcastWork c floatBits alive infoLogged s.currentWork order).sent = [] := by
  obtain ⟨clientId, client, hl, -⟩ := hr
  have hne : order ≠ [] := by
    rintro rfl
    cases filter_key_of_iteration ho hl
  obtain ⟨hsent, hok⟩ := broadcast_fails c floatBits alive infoLogged h hw ho hne
  exact ⟨fun hd ↦ hok hd.ok, hsent⟩

/-- A line that authorizes. -/
def authorizeLine : String :=
  "\x7b\"id\":2,\"method\":\"mining.authorize\",\"params\":[\"w\",\"x\"]\x7d"

/-- What `serde_json` makes of the two lines. -/
def readAuthorize (line : String) : Except String StratumMessage :=
  if line = authorizeLine then .ok ⟨some 2, "mining.authorize", [.string "w", .string "x"]⟩
  else readSubscribe line

/-- A client subscribes and is authorized, and work is set. -/
def readyEvents : List ServerEvent :=
  subscribeEvents ++ [.read "client" ⟨.line authorizeLine, 9, .ok ()⟩, .setWork (Job.workAt 5)]

/-- The server after these events. -/
def readyServer : StratumServer := readyEvents.foldl (step defaultConfig readAuthorize) new

theorem run_readyServer : ServerRun defaultConfig readAuthorize readyEvents readyServer :=
  .snoc (.snoc (.snoc (.snoc .nil ⟨rfl, rfl⟩) ⟨trivial, rfl⟩) ⟨trivial, rfl⟩) ⟨trivial, rfl⟩

/-- The one client of that server. -/
def readyClient : StratumClient :=
  { subscribedClient "client" ⟨.v4 0x7F000001, 50000⟩ 8 with
    workerName := "w"
    authorized := true
    lastActivity := 9 }

theorem clients_readyServer : readyServer.clients = Finmap.singleton "client" readyClient := (rfl)

theorem lookup_readyServer : readyServer.clients.lookup "client" = some readyClient := by
  rw [clients_readyServer]
  exact Finmap.lookup_singleton_eq

theorem iteration_readyServer : IterationOf readyServer.clients [("client", readyClient)] := by
  rw [clients_readyServer]
  exact (rfl)

/-- The work does not reach the client. -/
theorem not_delivers_ready :
    ¬Delivers sampleCrates (fun _ ↦ 0) (fun _ ↦ true) false readyServer (Job.workAt 5)
        [("client", readyClient)] ∧
      (broadcastWork sampleCrates (fun _ ↦ 0) (fun _ ↦ true) false readyServer.currentWork
        [("client", readyClient)]).sent = [] :=
  not_delivers sampleCrates (fun _ ↦ 0) (fun _ ↦ true) false run_readyServer rfl
    iteration_readyServer ⟨"client", readyClient, lookup_readyServer, rfl, rfl⟩

/-- The broadcast returns an error, although there is work and a client is ready. -/
theorem broadcast_error_ready :
    ServerRun defaultConfig readAuthorize readyEvents readyServer ∧
      readyServer.currentWork = some (Job.workAt 5) ∧
      readyServer.clients.lookup "client" = some readyClient ∧ readyClient.Ready ∧
      IterationOf readyServer.clients [("client", readyClient)] ∧
      ¬Delivers sampleCrates (fun _ ↦ 0) (fun _ ↦ true) false readyServer (Job.workAt 5)
        [("client", readyClient)] := by
  refine ⟨run_readyServer, rfl, lookup_readyServer, ⟨rfl, rfl⟩, iteration_readyServer, ?_⟩
  intro hd
  cases hd.ok

end StratumServer
end SilverPow.Server
