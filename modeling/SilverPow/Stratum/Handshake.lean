import SilverPow.Stratum.RequestIds

/-!
# The client's handshake

`src/stratum_client.rs`: `connect` opens a connection, subscribes and authorizes, and reads one
line after each of the two requests. The line is taken for the reply whatever its identifier
is. A call waits between its request and the line, so it is taken apart where it waits.
-/

namespace SilverPow.Stratum

open SilverPow.Base

/-! ### The address of the pool -/

/-- `strip_prefix` of the one protocol or the other, `src/stratum_client.rs:483–486`. -/
def stripProtocol (url : List Char) : List Char :=
  if "https://".toList <+: url then url.drop 8
  else if "http://".toList <+: url then url.drop 7
  else url

/-- `port_str.parse::<u16>()`. -/
def parsePort (text : String) : Option Nat :=
  ((parseU64 10 text).map BitVec.toNat).filter (· < 2 ^ 16)

/-- `parse_pool_url`, `src/stratum_client.rs:481–501`. -/
def parsePoolUrl (url : String) : Except String (String × Nat) :=
  let url := stripProtocol url.toList
  let host := String.ofList (url.takeWhile (· ≠ ':'))
  match url.dropWhile (· ≠ ':') with
  | _ :: portText =>
    match parsePort (String.ofList portText) with
    | some port => .ok (host, port)
    | none =>
      let portStr := String.ofList portText
      .error s!"Invalid port: {portStr}"
  | [] => .ok (host, 3333)

/-- The attempts to open a connection, each with its error if it fails, up to the limit;
`src/stratum_client.rs:67–103`. -/
def dial (limit attempts : Nat) : List (Option String) → Option (Except String Unit)
  | [] => none
  | none :: _ => some (.ok ())
  | some e :: rest =>
    if limit ≤ attempts + 1 then
      some (.error s!"Failed to connect to pool after {limit} attempts: {e}")
    else dial limit (attempts + 1) rest

/-- `max_reconnect_attempts`, `src/stratum_client.rs:55`. -/
def maxReconnectAttempts : Nat := 5

/-! ### The replies -/

namespace StratumClient

/-- The `mining.subscribe` message, `src/stratum_client.rs:123–128`. -/
def subscribeRequest (client : StratumClient) : Value :=
  .object [("id", .number (.posInt client.requestId)), ("method", .string "mining.subscribe"),
    ("params", .array [.string client.minerAddress])]

/-- The `mining.authorize` message, `src/stratum_client.rs:174–179`. -/
def authorizeRequest (client : StratumClient) : Value :=
  .object [("id", .number (.posInt client.requestId)), ("method", .string "mining.authorize"),
    ("params", .array [.string client.minerAddress, .string ""])]

end StratumClient

/-- How `serde_json` prints a value, for users and for debugging. -/
structure ValueText where
  display : Value → String
  debug : Value → String

section Replies

variable (text : ValueText)

/-- What `subscribe` makes of the line that it reads, `src/stratum_client.rs:132–169`. -/
def subscribeResult : Incoming → Except String String
  | .value response =>
    match response.get "result" with
    | some (.array items) =>
      match items.head? with
      | some (.string id) => .ok id
      | _ => .error "Invalid subscription ID in response"
    | some other => .error s!"Unexpected result type in subscription: {text.debug other}"
    | none =>
      match response.get "error" with
      | some error => .error s!"Pool error: {text.display error}"
      | none => .error "No result or error in subscription response"
  | .error e => .error s!"Subscribe response error: {e}"
  | .timeout => .error "Subscribe response timeout"

/-- What `authorize` makes of the line that it reads, `src/stratum_client.rs:183–220`. -/
def authorizeResult : Incoming → Except String Unit
  | .value response =>
    match response.get "result" with
    | some (.bool true) => .ok ()
    | some (.bool false) =>
      match response.get "error" with
      | some error => .error s!"Authorization rejected: {text.display error}"
      | none => .error "Authorization rejected by pool"
    | some other => .error s!"Unexpected result type in authorization: {text.debug other}"
    | none =>
      match response.get "error" with
      | some error => .error s!"Pool error: {text.display error}"
      | none => .error "No result or error in authorization response"
  | .error e => .error s!"Authorization response error: {e}"
  | .timeout => .error "Authorization response timeout"

end Replies

/-! ### The calls -/

/-- What a call of the client waits for. -/
inductive Waiting where
  | idle
  | subscribing
  | authorizing
  | submitting (requestId : U64)
  deriving DecidableEq

/-- `StratumClient`, `src/stratum_client.rs:21–42`, with the call that it is in: `linked` says
that there are a reader and a writer. -/
structure StratumPoolClient where
  client : StratumClient
  poolAddr : String
  linked : Bool
  subscriptionId : Option String
  lastKeepalive : Nat
  waiting : Waiting

/-- What a call returns. -/
inductive Returned where
  | connect (result : Except String Unit)
  | submitShare (result : Except String Bool)
  | sendKeepalive (result : Except String Unit)

/-- What the client does until it waits or returns: it may open a connection, write a request to
the connection that it has, and return. -/
structure Acted where
  client : StratumPoolClient
  opened : Bool
  request : Option Value
  returned : Option Returned

/-- What the client is told to do, with what comes of its attempts to open a connection. -/
inductive ClientAction where
  | connect (dials : List (Option String))
  | reconnect (dials : List (Option String))
  | submitShare (jobId : String) (nonce : U64) (hash : String) (isBlock : Bool)
  | sendKeepalive (now sentAt : Nat)

namespace StratumPoolClient

/-- `StratumClient::new`, `src/stratum_client.rs:46–59`. -/
def new (poolAddr minerAddress : String) (now : Nat) : StratumPoolClient where
  client := ⟨minerAddress, .disconnected, 1⟩
  poolAddr
  linked := false
  subscriptionId := none
  lastKeepalive := now
  waiting := .idle

/-- `is_connected`, `src/stratum_client.rs:447–450`. -/
def isConnected (c : StratumPoolClient) : Bool := c.client.state ≠ .disconnected

/-- `is_authorized`, `src/stratum_client.rs:453–456`. -/
def isAuthorized (c : StratumPoolClient) : Bool := c.client.state = .authorized

/-- The client in another state. -/
def setState (c : StratumPoolClient) (state : ConnectionState) : StratumPoolClient :=
  { c with client := { c.client with state } }

/-- `get_next_request_id`, `src/stratum_client.rs:439–444`. -/
def nextRequestId (c : StratumPoolClient) : StratumPoolClient :=
  { c with client := { c.client with requestId := c.client.requestId + 1 } }

/-- What comes of sending a request, given the error if the connection is broken,
`src/stratum_client.rs:350–391`. -/
def sent (c : StratumPoolClient) : Option String → Sent
  | none => if c.linked then .ok else .notConnected
  | some e => if c.linked then .broken e else .notConnected

/-- A call returns. -/
def finish (c : StratumPoolClient) (returned : Returned) : Acted :=
  ⟨{ c with waiting := .idle }, false, none, some returned⟩

/-- The sending of a request of the handshake: the client waits for the reply, or `connect`
fails. A write that fails disconnects the client. -/
def sendHandshake (c : StratumPoolClient) (request : Value) (broken : Option String)
    (waiting : Waiting) (failed : String) : Acted :=
  match c.sent broken with
  | .ok => ⟨{ c.nextRequestId with waiting }, false, some request, none⟩
  | .notConnected => c.nextRequestId.finish (.connect (.error (failed ++ "Not connected to pool")))
  | .broken e =>
    { (c.nextRequestId.setState .disconnected).finish (.connect (.error (failed ++ e))) with
      request := some request }

/-- `connect` until it waits for the reply to `mining.subscribe`, `src/stratum_client.rs:62–109`;
`none` while it tries to open a connection. -/
def connect (c : StratumPoolClient) (dials : List (Option String)) (broken : Option String) :
    Option Acted :=
  match parsePoolUrl c.poolAddr with
  | .error e => some (c.finish (.connect (.error e)))
  | .ok _ =>
    match dial maxReconnectAttempts 0 dials with
    | none => none
    | some (.error e) => some (c.finish (.connect (.error e)))
    | some (.ok ()) =>
      let c := { c.setState .connected with linked := true }
      let acted :=
        c.sendHandshake c.client.subscribeRequest broken .subscribing "Subscription failed: "
      some { acted with opened := true }

/-- `reconnect`, `src/stratum_client.rs:459–477`. -/
def reconnect (c : StratumPoolClient) (dials : List (Option String)) (broken : Option String) :
    Option Acted :=
  connect { c.setState .disconnected with linked := false } dials broken

/-- `submit_share` until it waits for a line, `src/stratum_client.rs:224–250`. -/
def submitShare (c : StratumPoolClient) (jobId : String) (nonce : U64) (hash : String)
    (isBlock : Bool) (broken : Option String) : Acted :=
  let request :=
    if c.client.state = .authorized ∧ c.linked then
      some (c.client.shareRequest jobId nonce hash isBlock)
    else none
  match c.client.submitShare (c.sent broken) [] with
  | (none, client) =>
    ⟨{ c with client, waiting := .submitting c.client.requestId }, false, request, none⟩
  | (some result, client) => ⟨{ c with client }, false, request, some (.submitShare result)⟩

/-- `send_keepalive`, `src/stratum_client.rs:506–551`. -/
def sendKeepalive (c : StratumPoolClient) (now sentAt : Nat) (broken : Option String) : Acted :=
  let request :=
    if ¬now - c.lastKeepalive < keepaliveInterval ∧ c.client.state = .authorized ∧ c.linked then
      some c.client.pingRequest
    else none
  let (result, client, lastKeepalive) :=
    c.client.sendKeepalive c.lastKeepalive now (c.sent broken) sentAt
  ⟨{ c with client, lastKeepalive }, false, request, some (.sendKeepalive result)⟩

/-- The client after a line, an error or a timeout that ends its wait, if it waits. -/
def read (text : ValueText) (c : StratumPoolClient) (line : Incoming) (broken : Option String) :
    Option Acted :=
  match c.waiting with
  | .idle => none
  | .subscribing =>
    match subscribeResult text line with
    | .error e => some (c.finish (.connect (.error s!"Subscription failed: {e}")))
    | .ok id =>
      let c := { c.setState .subscribed with subscriptionId := some id }
      some (c.sendHandshake c.client.authorizeRequest broken .authorizing "Authorization failed: ")
  | .authorizing =>
    match authorizeResult text line with
    | .error e => some (c.finish (.connect (.error s!"Authorization failed: {e}")))
    | .ok () => some ((c.setState .authorized).finish (.connect (.ok ())))
  | .submitting requestId =>
    match awaitReply requestId [line] with
    | none => some ⟨c, false, none, none⟩
    | some result => some (c.finish (.submitShare (result.map decodeShareReply)))

/-- The start of a call, if the client is in no other: one call follows another. -/
def act (c : StratumPoolClient) (broken : Option String) : ClientAction → Option Acted
  | .connect dials => if c.waiting = .idle then c.connect dials broken else none
  | .reconnect dials => if c.waiting = .idle then c.reconnect dials broken else none
  | .submitShare jobId nonce hash isBlock =>
    if c.waiting = .idle then some (c.submitShare jobId nonce hash isBlock broken) else none
  | .sendKeepalive now sentAt =>
    if c.waiting = .idle then some (c.sendKeepalive now sentAt broken) else none

end StratumPoolClient

/-! ### What the client can do -/

/-- A request for a method with its parameters. -/
structure Asks (request : Value) (method : String) (params : List Value) : Prop where
  method : request.get "method" = some (.string method)
  params : request.get "params" = some (.array params)

/-- A request that needs an authorized client. -/
def AsksAuthorized (address : String) (request : Value) : Prop :=
  (∃ jobId nonce hash isBlock, Asks request "mining.submit"
    [.string address, .string jobId, .string nonce, .string hash, .bool isBlock]) ∨
  Asks request "mining.ping" []

/-- What an action of the client can do: a new connection starts with a subscription, and
everything else that the client writes waits for the right state. -/
inductive Acts (text : ValueText) (c : StratumPoolClient) (broken : Option String) :
    Option Incoming → Acted → Prop
  | subscribes {c' : StratumPoolClient} {request : Value} {returned : Option Returned} :
      c'.client.minerAddress = c.client.minerAddress → c'.isAuthorized = false →
      c'.waiting ≠ .authorizing → (c'.waiting = .subscribing → broken = none) →
      Asks request "mining.subscribe" [.string c.client.minerAddress] →
      Acts text c broken none ⟨c', true, some request, returned⟩
  | authorizes {c' : StratumPoolClient} {line : Incoming} {id : String} {request : Option Value}
      {returned : Option Returned} :
      c.waiting = .subscribing → subscribeResult text line = .ok id →
      c'.client.minerAddress = c.client.minerAddress → c'.isAuthorized = false →
      c'.waiting ≠ .subscribing → c'.subscriptionId = some id →
      (∀ v ∈ request, Asks v "mining.authorize" [.string c.client.minerAddress, .string ""]) →
      Acts text c broken (some line) ⟨c', false, request, returned⟩
  | authorized {c' : StratumPoolClient} {line : Incoming} {returned : Option Returned} :
      c.waiting = .authorizing → authorizeResult text line = .ok () →
      c'.client.minerAddress = c.client.minerAddress → c'.waiting = .idle →
      c'.subscriptionId = c.subscriptionId →
      Acts text c broken (some line) ⟨c', false, none, returned⟩
  | uses {c' : StratumPoolClient} {line : Option Incoming} {request : Option Value}
      {returned : Option Returned} :
      c'.client.minerAddress = c.client.minerAddress →
      (c'.isAuthorized = true → c.isAuthorized = true) →
      c'.waiting ≠ .subscribing → c'.waiting ≠ .authorizing →
      c'.subscriptionId = c.subscriptionId →
      (∀ v ∈ request, c.isAuthorized = true ∧ AsksAuthorized c.client.minerAddress v) →
      Acts text c broken line ⟨c', false, request, returned⟩

namespace StratumPoolClient

variable {text : ValueText} {c : StratumPoolClient} {broken : Option String} {acted : Acted}

/-- A call that fails before it writes anything. -/
theorem acts_finish {c' : StratumPoolClient} (returned : Returned)
    (ha : c'.client.minerAddress = c.client.minerAddress)
    (hs : c'.isAuthorized = true → c.isAuthorized = true)
    (hid : c'.subscriptionId = c.subscriptionId) (line : Option Incoming) :
    Acts text c broken line (c'.finish returned) :=
  .uses ha hs nofun nofun hid nofun

/-- `connect` from any state in which the client keeps its address. -/
theorem acts_connect {c' : StratumPoolClient} {dials : List (Option String)}
    (h : c'.connect dials broken = some acted)
    (ha : c'.client.minerAddress = c.client.minerAddress)
    (hs : c'.isAuthorized = true → c.isAuthorized = true)
    (hid : c'.subscriptionId = c.subscriptionId) : Acts text c broken none acted := by
  have hasks : Asks c'.client.subscribeRequest "mining.subscribe"
      [.string c.client.minerAddress] := by
    rw [← ha]
    exact ⟨rfl, rfl⟩
  unfold connect at h
  split at h
  · cases h
    exact acts_finish _ ha hs hid none
  · split at h
    · cases h
    · cases h
      exact acts_finish _ ha hs hid none
    · cases h
      cases broken with
      | none => exact .subscribes ha rfl nofun (fun _ ↦ rfl) hasks
      | some e => exact .subscribes ha rfl nofun nofun hasks

/-- `submit_share` writes and waits only if the client is authorized. -/
theorem acts_submitShare (jobId : String) (nonce : U64) (hash : String) (isBlock : Bool)
    (hw : c.waiting = .idle) :
    Acts text c broken none (c.submitShare jobId nonce hash isBlock broken) := by
  have hasks : AsksAuthorized c.client.minerAddress
      (c.client.shareRequest jobId nonce hash isBlock) := .inl ⟨_, _, _, _, rfl, rfl⟩
  unfold submitShare StratumClient.submitShare
  by_cases hs : c.client.state = .authorized
  · have hauth : c.isAuthorized = true := decide_eq_true hs
    rw [if_neg (not_not.mpr hs)]
    cases hsent : c.sent broken with
    | ok =>
      refine .uses rfl (fun _ ↦ hauth) nofun nofun rfl fun v hv ↦ ⟨hauth, ?_⟩
      split at hv
      · cases hv
        exact hasks
      · cases hv
    | notConnected | broken e =>
      refine .uses rfl (fun _ ↦ hauth) (by simp [hw]) (by simp [hw]) rfl fun v hv ↦ ⟨hauth, ?_⟩
      split at hv
      · cases hv
        exact hasks
      · cases hv
  · rw [if_pos hs, if_neg (fun h ↦ hs h.1)]
    exact .uses rfl id (by simp [hw]) (by simp [hw]) rfl nofun

/-- So does `send_keepalive`, which waits for nothing. -/
theorem acts_sendKeepalive (now sentAt : Nat) (hw : c.waiting = .idle) :
    Acts text c broken none (c.sendKeepalive now sentAt broken) := by
  have hask : ∀ v ∈ (if ¬now - c.lastKeepalive < keepaliveInterval ∧
      c.client.state = .authorized ∧ c.linked then some c.client.pingRequest else none),
      c.isAuthorized = true ∧ AsksAuthorized c.client.minerAddress v := by
    intro v hv
    split at hv
    · next h =>
      cases hv
      exact ⟨decide_eq_true h.2.1, .inr ⟨rfl, rfl⟩⟩
    · cases hv
  have hkept :
      let next := (c.client.sendKeepalive c.lastKeepalive now (c.sent broken) sentAt).2.1
      next.minerAddress = c.client.minerAddress ∧
        (next.state = .authorized → c.client.state = .authorized) := by
    unfold StratumClient.sendKeepalive
    split
    · exact ⟨rfl, id⟩
    · split
      · exact ⟨rfl, id⟩
      · next hs => split <;> exact ⟨rfl, fun _ ↦ not_not.mp hs⟩
  refine .uses hkept.1 (fun h ↦ ?_) (by simp [hw]) (by simp [hw]) rfl hask
  exact decide_eq_true (hkept.2 (of_decide_eq_true h))

/-- A call that starts. -/
theorem acts_of_act {action : ClientAction} (h : c.act broken action = some acted) :
    Acts text c broken none acted := by
  cases action with
  | connect dials =>
    obtain ⟨-, h⟩ := Option.ite_none_right_eq_some.mp h
    exact acts_connect h rfl id rfl
  | reconnect dials =>
    obtain ⟨-, h⟩ := Option.ite_none_right_eq_some.mp h
    exact acts_connect h rfl nofun rfl
  | submitShare jobId nonce hash isBlock =>
    obtain ⟨hw, h⟩ := Option.ite_none_right_eq_some.mp h
    cases h
    exact acts_submitShare jobId nonce hash isBlock hw
  | sendKeepalive now sentAt =>
    obtain ⟨hw, h⟩ := Option.ite_none_right_eq_some.mp h
    cases h
    exact acts_sendKeepalive now sentAt hw

/-- A read that ends a wait. -/
theorem acts_of_read {line : Incoming} (h : c.read text line broken = some acted) :
    Acts text c broken (some line) acted := by
  unfold read at h
  split at h
  · cases h
  · next hw =>
    split at h
    · cases h
      exact acts_finish _ rfl id rfl _
    · next id hr =>
      cases h
      unfold sendHandshake
      split
      · exact .authorizes hw hr rfl rfl nofun rfl fun v hv ↦ by cases hv; exact ⟨rfl, rfl⟩
      · exact .authorizes hw hr rfl rfl nofun rfl nofun
      · exact .authorizes hw hr rfl rfl nofun rfl fun v hv ↦ by cases hv; exact ⟨rfl, rfl⟩
  · next hw =>
    split at h
    · cases h
      exact acts_finish _ rfl id rfl _
    · next hr =>
      cases h
      exact .authorized hw hr rfl rfl rfl
  · next requestId hw =>
    split at h
    · cases h
      exact .uses rfl id (by simp [hw]) (by simp [hw]) rfl nofun
    · cases h
      exact acts_finish _ rfl id rfl _

/-! ### A handshake that nothing interrupts -/

/-- The client when it has sent a request of the handshake and waits for a line. -/
def asked (c : StratumPoolClient) (state : ConnectionState) (waiting : Waiting) :
    StratumPoolClient :=
  { (c.setState state).nextRequestId with linked := true, waiting }

/-- `connect` reaches the pool at the first attempt. -/
theorem connect_dialed (c : StratumPoolClient) {host : String} {port : Nat}
    (hu : parsePoolUrl c.poolAddr = .ok (host, port)) :
    c.connect [none] none =
      some ⟨c.asked .connected .subscribing, true, some c.client.subscribeRequest, none⟩ := by
  rw [connect, hu]
  rfl

/-- The client reads its subscription. -/
theorem read_subscribed (hw : c.waiting = .subscribing) (hl : c.linked = true) {line : Incoming}
    {id : String} (hr : subscribeResult text line = .ok id) :
    c.read text line none =
      some ⟨{ c.asked .subscribed .authorizing with subscriptionId := some id }, false,
        some c.client.authorizeRequest, none⟩ := by
  simp only [read, hw, hr, sendHandshake, sent]
  rw [if_pos (by exact hl)]
  simp [asked, setState, nextRequestId, hl, StratumClient.authorizeRequest]

/-- The client reads its authorization. -/
theorem read_authorized (hw : c.waiting = .authorizing) {line : Incoming}
    (hr : authorizeResult text line = .ok ()) :
    c.read text line none = some ((c.setState .authorized).finish (.connect (.ok ()))) := by
  rw [read, hw]
  simp only [hr]

end StratumPoolClient
end SilverPow.Stratum
