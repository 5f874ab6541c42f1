import SilverPow.Stratum.Links

/-!
# A client and this pool

The pool's side of a connection is the loop of `handle_miner_connection`,
`src/stratum_pool.rs:1141–1556`. Over all connections of a client, with timeouts, broken writes
and reconnects in any order, the loop and the client agree on the subscription, and no request
of the client comes when the loop would turn it away.
-/

namespace SilverPow.Stratum

open SilverPow.Base

/-- What goes with a line that the loop reads. -/
structure PoolTurn where
  others : PoolState → PoolState
  env : Env
  written : Bool

/-- A client that is not subscribed yet. -/
def Connection.fresh : Connection := ⟨none, none, false⟩

section Pool

variable (c : Crates) (r : Registration) (sumHashrates : Table String MinerSession → U64)

/-- The loop with the line that it reads. -/
def ConnectionLoop.turn (loop : ConnectionLoop) (line : Line) (t : PoolTurn) : ConnectionLoop :=
  loop.step c r sumHashrates ⟨line, t.others, t.env, t.written⟩

/-- The loop writes its replies one after another. -/
theorem ConnectionLoop.replies_turn (loop : ConnectionLoop) (line : Line) (t : PoolTurn) :
    loop.replies <+: (loop.turn c r sumHashrates line t).replies := by
  unfold turn step
  split
  · cases line with
    | closed | timeout | readError | blank => exact List.prefix_rfl
    | invalidJson => exact List.prefix_append _ _
    | request request =>
      dsimp only [handleRequest]
      split <;> exact List.prefix_append _ _
  · exact List.prefix_rfl

/-- The loop answers a request with a method and parameters. -/
theorem ConnectionLoop.turn_request {loop : ConnectionLoop} (hr : loop.running = true)
    (t : PoolTurn) {request : Value} {method : String} {params : List Value}
    (hm : request.get "method" = some (.string method))
    (hp : request.get "params" = some (.array params)) :
    loop.turn c r sumHashrates (.request request) t =
      let answer := handleMethod c r sumHashrates t.env (t.others loop.pool) loop.conn
        ((request.get "id").getD .null) method params
      ⟨t.written, answer.conn, answer.pool, loop.replies ++ [answer.reply],
        loop.log ++ answer.log⟩ := by
  simp [turn, step, hr, handleRequest, hm, hp]

/-- Any other line leaves the subscription alone, and has a reply only if it is not JSON. -/
theorem ConnectionLoop.turn_other (loop : ConnectionLoop) {line : Line}
    (hl : ∀ request, line ≠ .request request) (t : PoolTurn) :
    let loop' := loop.turn c r sumHashrates line t
    loop'.conn = loop.conn ∧ loop'.log = loop.log ∧
      (loop'.replies = loop.replies ∨
        loop'.replies = loop.replies ++ [reply .null .null (.string "Invalid JSON")]) := by
  unfold turn step
  dsimp only
  split
  · cases line with
    | closed | timeout | readError | blank => exact ⟨rfl, rfl, .inl rfl⟩
    | invalidJson => exact ⟨rfl, rfl, .inr rfl⟩
    | request request => exact absurd rfl (hl request)
  · exact ⟨rfl, rfl, .inl rfl⟩

/-- `handle_miner_connection` as the side of a pool. -/
def poolSide : PoolSide where
  Opening := PoolState
  Handler := ConnectionLoop
  Turn := PoolTurn
  start := .start
  step := ConnectionLoop.turn c r sumHashrates
  running := (·.running)
  replies := (·.replies)
  grows := ConnectionLoop.replies_turn c r sumHashrates

end Pool

variable {c : Crates} {r : Registration} {sumHashrates : Table String MinerSession → U64}
  {text : ValueText} {address : String}

/-- A request comes when the loop can serve it: a subscription first of all, an authorization
after a subscription of the same address, and everything else after the authorization. -/
def Admitted (address : String) (conn : Connection) (request : Value) : Prop :=
  conn = .fresh ∧ Asks request "mining.subscribe" [.string address] ∨
  ∃ id, conn.minerId = some id ∧ conn.minerAddress = some address ∧
    (Asks request "mining.authorize" [.string address, .string ""] ∨
      conn.isAuthorized = true ∧ AsksAuthorized address request)

/-- A call is for the miner and the address of the loop's subscription. -/
def Connection.Credited (address : String) (conn : Connection) (call : SubmitCall) : Prop :=
  ∃ id, conn.minerId = some id ∧ conn.minerAddress = some address ∧ call.Credits id address

/-- What the lines of a loop tell the client is so, and its calls credit the client. -/
structure Agreed (text : ValueText) (address : String) (conn : Connection) (replies : List Value)
    (log : List LogEntry) : Prop where
  subscribed : ∀ line ∈ replies, ∀ id, subscribeResult text (.value line) = .ok id →
    conn.minerId = some id ∧ conn.minerAddress = some address
  approved : ∀ line ∈ replies, authorizeResult text (.value line) = .ok () →
    conn.isAuthorized = true
  credited : ∀ call, .called call ∈ log → conn.Credited address call

/-- A line that is neither a subscription nor an authorization. -/
def Plain (text : ValueText) (line : Value) : Prop :=
  (∀ id, subscribeResult text (.value line) ≠ .ok id) ∧
    authorizeResult text (.value line) ≠ .ok ()

/-- A reply without a result, with a text or with `false` is neither. -/
theorem plain_reply (requestId : Value) {result : Value} (error : Value)
    (h : result = .null ∨ result = .bool false ∨ ∃ t, result = .string t) :
    Plain text (reply requestId result error) := by
  rcases h with rfl | rfl | ⟨t, rfl⟩ <;> simp [Plain, subscribeResult, authorizeResult]

/-- So is the reply to a share. -/
theorem plain_handleSubmit (env : Env) (pool : PoolState) (conn : Connection)
    (requestId : Value) (params : List Value) :
    Plain text (handleSubmit c env pool conn requestId params).reply := by
  unfold handleSubmit
  split
  · dsimp only
    split
    · exact plain_reply _ _ (.inr (.inl rfl))
    · unfold shareReply
      split <;> exact plain_reply _ _ (.inl rfl)
  · exact plain_reply _ _ (.inr (.inl rfl))

namespace Agreed

variable {conn : Connection} {replies : List Value} {log : List LogEntry}

/-- A plain line, and calls for the miner of the subscription. -/
theorem concat (h : Agreed text address conn replies log) {line : Value} (hp : Plain text line)
    {calls : List SubmitCall} (hcalls : ∀ call ∈ calls, conn.Credited address call) :
    Agreed text address conn (replies ++ [line]) (log ++ calls.map .called) := by
  constructor
  · intro other ho id hid
    rcases List.mem_append.mp ho with ho | ho
    · exact h.subscribed other ho id hid
    · cases List.mem_singleton.mp ho
      exact absurd hid (hp.1 id)
  · intro other ho happ
    rcases List.mem_append.mp ho with ho | ho
    · exact h.approved other ho happ
    · cases List.mem_singleton.mp ho
      exact absurd happ hp.2
  · intro call hc
    rcases List.mem_append.mp hc with hc | hc
    · exact h.credited call hc
    · obtain ⟨_, hc, ⟨⟩⟩ := List.mem_map.mp hc
      exact hcalls call hc

/-- A plain line, and nothing else. -/
theorem plain (h : Agreed text address conn replies log) {line : Value} (hp : Plain text line) :
    Agreed text address conn (replies ++ [line]) (log ++ []) :=
  h.concat hp (List.forall_mem_nil _)

/-- Before the subscription no line can be taken for one or for an authorization, and no call
was made. -/
theorem subscribe (h : Agreed text address .fresh replies log) (id : String)
    (requestId error : Value) :
    Agreed text address ⟨some id, some address, false⟩
      (replies ++ [reply requestId (.array [.string id, .string "0"]) error])
      (log ++ [.subscribed id address]) := by
  constructor
  · intro other ho id' hid
    rcases List.mem_append.mp ho with ho | ho
    · cases (h.subscribed other ho id' hid).1
    · cases List.mem_singleton.mp ho
      rw [subscribeResult, get_result_reply] at hid
      cases hid
      exact ⟨rfl, rfl⟩
  · intro other ho happ
    rcases List.mem_append.mp ho with ho | ho
    · cases h.approved other ho happ
    · cases List.mem_singleton.mp ho
      rw [authorizeResult, get_result_reply] at happ
      cases happ
  · intro call hc
    rcases List.mem_append.mp hc with hc | hc
    · obtain ⟨id, hid, -⟩ := h.credited call hc
      cases hid
    · cases List.mem_singleton.mp hc

/-- An authorization is so when the client reads about it. -/
theorem authorize (h : Agreed text address conn replies log) (requestId error : Value) :
    Agreed text address { conn with isAuthorized := true }
      (replies ++ [reply requestId (.bool true) error]) (log ++ [.authorized]) := by
  constructor
  · intro other ho id hid
    rcases List.mem_append.mp ho with ho | ho
    · exact h.subscribed other ho id hid
    · cases List.mem_singleton.mp ho
      rw [subscribeResult, get_result_reply] at hid
      cases hid
  · intro _ _ _
    rfl
  · intro call hc
    rcases List.mem_append.mp hc with hc | hc
    · exact h.credited call hc
    · cases List.mem_singleton.mp hc

/-- A request that comes at its time keeps the client and the loop in agreement. -/
theorem handleMethod (h : Agreed text address conn replies log) (env : Env) (pool : PoolState)
    (requestId : Value) {request : Value} (ha : Admitted address conn request) {method : String}
    {params : List Value} (hm : request.get "method" = some (.string method))
    (hp : request.get "params" = some (.array params)) :
    let answer := handleMethod c r sumHashrates env pool conn requestId method params
    Agreed text address answer.conn (replies ++ [answer.reply]) (log ++ answer.log) := by
  have hasks : ∀ {m ps}, Asks request m ps → method = m ∧ params = ps := by
    intro m ps ⟨hm', hp'⟩
    cases hm.symm.trans hm'
    cases hp.symm.trans hp'
    exact ⟨rfl, rfl⟩
  rcases ha with ⟨rfl, ha⟩ | ⟨id, hid, haddr, ha | ⟨-, ⟨jobId, nonce, hash, isBlock, ha⟩ | ha⟩⟩
  · obtain ⟨rfl, rfl⟩ := hasks ha
    rcases hr : pool.registerMiner r env address with ⟨e | id, next⟩
    · simp only [Stratum.handleMethod, paramString, List.getElem?_cons_zero, hr]
      exact h.plain (plain_reply _ _ (.inl rfl))
    · simp only [Stratum.handleMethod, paramString, List.getElem?_cons_zero, hr]
      exact h.subscribe _ _ _
  · obtain ⟨rfl, rfl⟩ := hasks ha
    dsimp only [Stratum.handleMethod]
    rw [if_pos (by rw [hid]; rfl)]
    exact h.authorize _ _
  · obtain ⟨rfl, rfl⟩ := hasks ha
    refine h.concat (plain_handleSubmit env pool conn requestId _) fun call hc ↦ ?_
    obtain ⟨-, id', hid', hcredits⟩ := credits_of_mem_submitCalls hc
    rw [haddr] at hcredits
    exact ⟨id', hid', haddr, hcredits⟩
  · obtain ⟨rfl, rfl⟩ := hasks ha
    exact h.plain (plain_reply _ _ (.inr (.inr ⟨_, rfl⟩)))

end Agreed
/-! ### Every connection of a client -/

section Links

variable {link link' : Link (poolSide c r sumHashrates)}

/-- A connection is fresh until the first request is read, and agrees with the client. -/
structure InStep (text : ValueText) (address : String) (link : Link (poolSide c r sumHashrates)) :
    Prop where
  fresh : link.handled = 0 → link.handler.conn = .fresh
  agreed : Agreed text address link.handler.conn link.handler.replies link.handler.log

/-- The next request comes at its time. -/
theorem InStep.admitted (h : InStep text address link) (hs : link.Sound text address)
    {request : Value} (hr : link.requests[link.handled]? = some request) :
    Admitted address link.handler.conn request := by
  cases hn : link.handled with
  | zero =>
    rw [hn] at hr
    exact .inl ⟨h.fresh hn, hs.first request hr⟩
  | succ i =>
    rw [hn] at hr
    obtain ⟨⟨id, line, hl, hid⟩, hasks⟩ := hs.later i request hr
    obtain ⟨hm, haddr⟩ := h.agreed.subscribed line hl id hid
    refine .inr ⟨id, hm, haddr, hasks.imp_right ?_⟩
    rintro ⟨⟨line, hl, happ⟩, hasks⟩
    exact ⟨h.agreed.approved line hl happ, hasks⟩

/-- What a client asks for has a method and parameters. -/
theorem Admitted.get {conn : Connection} {request : Value} (h : Admitted address conn request) :
    ∃ method params, request.get "method" = some (.string method) ∧
      request.get "params" = some (.array params) := by
  rcases h with ⟨-, h⟩ | ⟨_, -, -, h | ⟨-, ⟨_, _, _, _, h⟩ | h⟩⟩ <;>
    exact ⟨_, _, h.method, h.params⟩

/-- The loop reads the next request. -/
theorem InStep.request (h : InStep text address link) (hs : link.Sound text address)
    {t : PoolTurn} (hr : link.request t = some link') : InStep text address link' := by
  unfold Link.request at hr
  split at hr
  · next request hnext hrun =>
    cases hr
    obtain ⟨method, params, hm, hp⟩ := (h.admitted hs hnext).get
    refine ⟨nofun, ?_⟩
    change Agreed text address (link.handler.turn c r sumHashrates (.request request) t).conn
      (link.handler.turn c r sumHashrates (.request request) t).replies
      (link.handler.turn c r sumHashrates (.request request) t).log
    rw [ConnectionLoop.turn_request c r sumHashrates hrun t hm hp]
    exact h.agreed.handleMethod _ _ _ (h.admitted hs hnext) hm hp
  · cases hr

/-- The loop reads any other line. -/
theorem InStep.otherLine (h : InStep text address link) {line : Line} {t : PoolTurn}
    (hr : link.otherLine t line = some link') : InStep text address link' := by
  unfold Link.otherLine at hr
  split at hr
  · cases hr
  · next hline =>
    split at hr
    · cases hr
      obtain ⟨hconn, hlog, hreplies⟩ :=
        link.handler.turn_other c r sumHashrates (fun request h ↦ hline request h) t
      refine ⟨fun hn ↦ hconn.trans (h.fresh hn), ?_⟩
      change Agreed text address (link.handler.turn c r sumHashrates line t).conn
        (link.handler.turn c r sumHashrates line t).replies
        (link.handler.turn c r sumHashrates line t).log
      rw [hconn, hlog]
      rcases hreplies with hreplies | hreplies
      · rw [hreplies]
        exact h.agreed
      · rw [hreplies, ← List.append_nil link.handler.log]
        exact h.agreed.plain (plain_reply _ _ (.inl rfl))
    · cases hr

end Links

namespace Conversation

variable {s s' : Conversation (poolSide c r sumHashrates)}

/-- The two sides keep in step on every connection. -/
theorem linkKept_inStep (hs : s.Sound text address) : s.LinkKept (InStep text address) where
  accepted _ := ⟨fun _ ↦ rfl, nofun, nofun, nofun⟩
  write _ _ h := ⟨h.fresh, h.agreed⟩
  take _ h := ⟨h.fresh, h.agreed⟩
  request link _ _ hl h hr := h.request (hs.links link hl) hr
  otherLine _ _ _ _ h hr := h.otherLine hr

theorem inStep_of_run {poolAddr : String} {now : Nat}
    {es : List (LinkEvent (poolSide c r sumHashrates))}
    (h : ConversationRun text (poolSide c r sumHashrates) (.new poolAddr address now) es s) :
    ∀ link ∈ s.links, InStep text address link := by
  suffices hk : s.Sound text address ∧ ∀ link ∈ s.links, InStep text address link from hk.2
  refine h.invariant (fun s ↦ s.Sound text address ∧ ∀ link ∈ s.links, InStep text address link)
    ⟨sound_of_run .nil, List.forall_mem_nil _⟩ ?_
  rintro s e s' ⟨hs, hl⟩ he
  exact ⟨sound_step hs he, (linkKept_inStep hs).step hl he⟩

end Conversation

/-! ### A reconnect that nothing interrupts -/

namespace Link

variable {link : Link (poolSide c r sumHashrates)}

/-- The loop reads a request with a method and parameters. -/
theorem request_of_get (hr : link.handler.running = true) {request : Value}
    (hnext : link.requests[link.handled]? = some request) {method : String} {params : List Value}
    (hm : request.get "method" = some (.string method))
    (hp : request.get "params" = some (.array params)) (t : PoolTurn) :
    link.request t =
      let answer := handleMethod c r sumHashrates t.env (t.others link.handler.pool)
        link.handler.conn ((request.get "id").getD .null) method params
      some ⟨link.requests, link.handled + 1,
        (⟨t.written, answer.conn, answer.pool, link.handler.replies ++ [answer.reply],
          link.handler.log ++ answer.log⟩ : ConnectionLoop), link.taken⟩ := by
  have hside : (poolSide c r sumHashrates).running link.handler = true := hr
  unfold Link.request
  simp only [hnext, hside, ← ConnectionLoop.turn_request c r sumHashrates hr t hm hp]
  rfl

/-- A subscription that the pool can register. -/
theorem request_subscribe (hr : link.handler.running = true) {request : Value}
    (hnext : link.requests[link.handled]? = some request)
    (ha : Asks request "mining.subscribe" [.string address]) {t : PoolTurn} {id : String}
    {next : PoolState}
    (hreg : (t.others link.handler.pool).registerMiner r t.env address = (.ok id, next)) :
    link.request t = some ⟨link.requests, link.handled + 1,
      (⟨t.written, ⟨some id, some address, false⟩, next,
        link.handler.replies ++ [reply ((request.get "id").getD .null)
          (.array [.string id, .string "0"]) .null],
        link.handler.log ++ [.subscribed id address]⟩ : ConnectionLoop), link.taken⟩ := by
  rw [request_of_get hr hnext ha.method ha.params]
  simp only [handleMethod, paramString, List.getElem?_cons_zero, hreg]

/-- An authorization after a subscription. -/
theorem request_authorize (hr : link.handler.running = true) {request : Value}
    (hnext : link.requests[link.handled]? = some request) {params : List Value}
    (ha : Asks request "mining.authorize" params) (t : PoolTurn)
    (hm : link.handler.conn.minerId.isSome = true) :
    link.request t = some ⟨link.requests, link.handled + 1,
      (⟨t.written, { link.handler.conn with isAuthorized := true },
        t.others link.handler.pool,
        link.handler.replies ++ [reply ((request.get "id").getD .null) (.bool true) .null],
        link.handler.log ++ [.authorized]⟩ : ConnectionLoop), link.taken⟩ := by
  rw [request_of_get hr hnext ha.method ha.params]
  simp only [handleMethod, if_pos hm]

end Link
namespace Conversation

/-- The client reconnects, and nothing interrupts the handshake. -/
def handshake (pool : PoolState) (t t' : PoolTurn) : List (LinkEvent (poolSide c r sumHashrates)) :=
  [.call (.reconnect [none]) none true pool, .request none t, .nextLine none true,
    .request none t', .nextLine none true]

/-- The two requests and the two lines of a handshake. -/
theorem foldlM_handshake {s : Conversation (poolSide c r sumHashrates)}
    (hidle : s.miner.waiting = .idle) {host : String} {port : Nat}
    (hu : parsePoolUrl s.miner.poolAddr = .ok (host, port)) {pool : PoolState} {t t' : PoolTurn}
    {id : String} {next : PoolState}
    (hr : (t.others pool).registerMiner r t.env s.miner.client.minerAddress = (.ok id, next))
    (hw : t.written = true) :
    ∃ s', (handshake pool t t').foldlM (step text) s = some s' ∧ s'.miner.isAuthorized = true ∧
      s'.miner.subscriptionId = some id := by
  have hconnect : s.step text (.call (.reconnect [none]) none true pool) = some
      ⟨{ s.miner with linked := false }.asked .connected .subscribing,
        some ((Link.accepted pool).write s.miner.client.subscribeRequest), s.links⟩ := by
    have hact : s.miner.act none (.reconnect [none]) = some ⟨_, true, _, none⟩ :=
      (if_pos hidle).trans (StratumPoolClient.connect_dialed
        { s.miner.setState .disconnected with linked := false } hu)
    simp only [step, hact]
    rfl
  refine Run.exists_foldlM_cons hconnect ?_
  refine Run.exists_foldlM_cons
    (step_request rfl (Link.request_subscribe rfl rfl ⟨rfl, rfl⟩ hr)) ?_
  refine Run.exists_foldlM_cons (step_nextLine rfl rfl
    (StratumPoolClient.read_subscribed rfl rfl (by rw [subscribeResult, get_result_reply]; rfl))) ?_
  refine Run.exists_foldlM_cons
    (step_request rfl (Link.request_authorize hw rfl ⟨rfl, rfl⟩ _ rfl)) ?_
  refine Run.exists_foldlM_cons (step_nextLine rfl rfl
    (StratumPoolClient.read_authorized rfl (by rw [authorizeResult, get_result_reply]))) ?_
  exact ⟨_, rfl, rfl, rfl⟩

/-! ### What holds in every run -/

/-- A line that arrives while nothing else happens. -/
def sampleTurn : PoolTurn := ⟨id, sampleEnv, true⟩

/-- A pool that registers one miner. -/
abbrev sampleSide : PoolSide := poolSide sampleCrates PoolState.sampleRegistration fun _ ↦ 0

/-- The client of a registered address. -/
def sampleMiner : StratumPoolClient := .new "pool" PoolState.registeredAddress 0

/-- The client after its handshake. -/
theorem exists_sampleRun : ∃ es s, ConversationRun sampleText sampleSide sampleMiner es s ∧
    s.miner.isAuthorized = true := by
  have hu : parsePoolUrl "pool" = .ok ("pool", 3333) := rfl
  have hs : ∃ s, (handshake PoolState.startedPool sampleTurn sampleTurn).foldlM (step sampleText)
      (start sampleMiner : Conversation sampleSide) = some s ∧ s.miner.isAuthorized = true ∧
        s.miner.subscriptionId = some (sampleEnv.uuid 0) :=
    foldlM_handshake rfl hu (PoolState.registerMiner_registeredAddress _) rfl
  obtain ⟨s, hs, ha, -⟩ := hs
  exact ⟨_, s, Run.foldlM .nil hs, ha⟩

/-- No request of the client is turned away, on whatever connection it comes: the loop that reads
it is ready for it. Whatever the loop calls credits the client. -/
theorem admitted_of_run {poolAddr : String} {now : Nat}
    {es : List (LinkEvent (poolSide c r sumHashrates))}
    (h : ConversationRun text (poolSide c r sumHashrates) (.new poolAddr address now) es s) :
    ∀ link ∈ s.links,
      (∀ request : Value, link.requests[link.handled]? = some request →
        Admitted address link.handler.conn request) ∧
      ∀ call, .called call ∈ link.handler.log → link.handler.conn.Credited address call := by
  intro link hl
  have hstep := inStep_of_run h link hl
  exact ⟨fun request hr ↦ hstep.admitted ((sound_of_run h).links link hl) hr,
    hstep.agreed.credited⟩

/-- Nor is a request of the client that has authorized. -/
theorem admitted_of_run_authorized : ∃ s : Conversation sampleSide, s.miner.isAuthorized = true ∧
    ∀ link ∈ s.links,
      (∀ request : Value, link.requests[link.handled]? = some request →
        Admitted PoolState.registeredAddress link.handler.conn request) ∧
      ∀ call, .called call ∈ link.handler.log →
        link.handler.conn.Credited PoolState.registeredAddress call := by
  obtain ⟨_, s, h, ha⟩ := exists_sampleRun
  exact ⟨s, ha, admitted_of_run h⟩

/-- When the client is authorized, the loop at the other end of its connection has authorized it,
for the client's address and under the identifier that the client got. -/
theorem agrees_of_run {poolAddr : String} {now : Nat}
    {es : List (LinkEvent (poolSide c r sumHashrates))}
    (h : ConversationRun text (poolSide c r sumHashrates) (.new poolAddr address now) es s)
    (ha : s.miner.isAuthorized = true) :
    ∃ link id, s.current = some link ∧ s.miner.subscriptionId = some id ∧
      link.handler.conn = ⟨some id, some address, true⟩ := by
  obtain ⟨link, ⟨hc, -, id, hid, line, hl, hsub⟩, line', hl', happ⟩ :=
    (sound_of_run h).authorized ha
  have hagreed := (inStep_of_run h link (by simp [links, hc])).agreed
  obtain ⟨hm, haddr⟩ := hagreed.subscribed line hl id hsub
  refine ⟨link, id, hc, hid, ?_⟩
  rw [← hm, ← haddr, ← hagreed.approved line' hl' happ]

/-- The client and the loop after the handshake. -/
theorem agrees_of_run_authorized : ∃ (s : Conversation sampleSide) (link : _) (id : String),
    s.current = some link ∧ s.miner.subscriptionId = some id ∧
      link.handler.conn = ⟨some id, some PoolState.registeredAddress, true⟩ := by
  obtain ⟨_, s, h, ha⟩ := exists_sampleRun
  exact ⟨s, agrees_of_run h ha⟩

/-- Whatever has happened before, a client that is in no call gets authorized by a reconnect that
nothing interrupts, if the pool registers its address. -/
theorem reconnects {poolAddr : String} {now : Nat}
    {es : List (LinkEvent (poolSide c r sumHashrates))}
    (h : ConversationRun text (poolSide c r sumHashrates) (.new poolAddr address now) es s)
    (hidle : s.miner.waiting = .idle) {host : String} {port : Nat}
    (hu : parsePoolUrl s.miner.poolAddr = .ok (host, port)) {pool : PoolState} {t t' : PoolTurn}
    {id : String} {next : PoolState}
    (hr : (t.others pool).registerMiner r t.env address = (.ok id, next)) (hw : t.written = true) :
    ∃ s', ConversationRun text (poolSide c r sumHashrates) (.new poolAddr address now)
        (es ++ handshake pool t t') s' ∧
      s'.miner.isAuthorized = true ∧ s'.miner.subscriptionId = some id := by
  rw [← (sound_of_run h).own] at hr
  obtain ⟨s', hs, hauth, hid⟩ := foldlM_handshake hidle hu hr hw
  exact ⟨s', h.foldlM hs, hauth, hid⟩

/-- A client reconnects for the first time. -/
theorem reconnects_started : ∃ s : Conversation sampleSide,
    ConversationRun sampleText sampleSide sampleMiner
        ([] ++ handshake PoolState.startedPool sampleTurn sampleTurn) s ∧
      s.miner.isAuthorized = true ∧ s.miner.subscriptionId = some (sampleEnv.uuid 0) := by
  have hu : parsePoolUrl "pool" = .ok ("pool", 3333) := rfl
  exact reconnects .nil rfl hu (PoolState.registerMiner_registeredAddress _) rfl

end Conversation
end SilverPow.Stratum
