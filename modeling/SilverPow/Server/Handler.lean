import SilverPow.Config
import SilverPow.Server.RateLimit
import SilverPow.Stratum.Exchange

/-!
# The handler of a connection

`handle_client`, `src/stratum.rs:260–430`: the loop of the Stratum server over the lines of one
connection. The clock is read once in an iteration. Only `mining.subscribe` stores a client
under the connection's identifier, and of the ways to leave the loop only the end of the
stream and a long silence remove it.
-/

namespace SilverPow.Server

open SilverPow.Base SilverPow.Stratum

/-- `std::net::SocketAddr`. -/
structure SocketAddr where
  ip : IpAddr
  port : BitVec 16

/-- `StratumMessage`, `src/stratum.rs:17–21`. -/
structure StratumMessage where
  id : Option U64
  method : String
  params : List Value

/-- `StratumClient` of the server, `src/stratum.rs:71–84`; a sender is a channel's number. -/
structure StratumClient where
  id : String
  workerName : String
  difficulty : U64
  subscribed : Bool
  authorized : Bool
  sharesAccepted : U64
  sharesRejected : U64
  connectedAt : Nat
  lastActivity : Nat
  remoteAddr : Option SocketAddr
  sender : Option Nat

/-- The clients of a server by their identifiers. -/
abbrev Clients := Table String StratumClient

/-- The settings of the server that a handler receives. -/
structure HandlerConfig where
  clientTimeout : Nat
  rateLimit : U32

/-- The variables of the loop, `src/stratum.rs:269–274`. -/
structure Handler where
  remoteAddr : SocketAddr
  lastMessageTime : Nat
  messageCount : U32
  rateLimitWindow : Nat

/-- How `handle_client` returns: a write error is its `Err`, the others are `Ok`. -/
inductive Exit where
  | closed
  | rateLimited
  | readError
  | inactive
  | writeError (error : PoWError)

/-- What an iteration does: the clients after it, the message that reached the peer, and the
variables of the next iteration or the end. -/
structure Handled where
  clients : Clients
  written : Option Value
  next : Except Exit Handler

/-- The result of one read with its timeout. -/
inductive Read where
  | endOfStream
  | line (text : String)
  | error (error : String)
  | timeout

/-- What an iteration meets: the read, the clock after it, and how a write would go. -/
structure ReadEvent where
  read : Read
  now : Nat
  write : Except String Unit

/-- Write a message, the last thing an iteration does. -/
def Handled.write (clients : Clients) (handler : Handler) (message : Value) :
    Except String Unit → Handled
  | .ok () => ⟨clients, some message, .ok handler⟩
  | .error error => ⟨clients, none, .error (.writeError (.ioError error))⟩

/-- The message at the start of a connection, `src/stratum.rs:277–284`. -/
def subscribeResponse (clientId : String) : Value :=
  reply (.number (.posInt 1))
    (.array [.array [.string "mining.notify", .string clientId],
      .array [.string "mining.set_difficulty"]]) .null

/-- The start of `handle_client`, `src/stratum.rs:269–288`. -/
def startClient (clients : Clients) (clientId : String) (remoteAddr : SocketAddr) (now : Nat)
    (write : Except String Unit) : Handled :=
  .write clients ⟨remoteAddr, now, 0, now⟩ (subscribeResponse clientId) write

/-- The property `White_Space` of a character. -/
def isWhitespace (ch : Char) : Bool :=
  let n := ch.toNat
  (9 ≤ n && n ≤ 13) || n = 0x20 || n = 0x85 || n = 0xA0 || n = 0x1680 ||
    (0x2000 ≤ n && n ≤ 0x200A) || n = 0x2028 || n = 0x2029 || n = 0x202F || n = 0x205F ||
    n = 0x3000

/-- `str::trim`. -/
def trim (s : String) : String :=
  String.ofList ((s.toList.dropWhile isWhitespace).reverse.dropWhile isWhitespace).reverse

/-- The message in a line, if it is neither blank nor unreadable; `serde_json` reads it. -/
def lineMessage (fromJsonLine : String → Except String StratumMessage) (text : String) :
    Option StratumMessage :=
  let line := trim text
  if line = "" then none
  else match fromJsonLine line with
    | .ok message => some message
    | .error _ => none

/-- The client that `mining.subscribe` stores, `src/stratum.rs:330–345`. -/
def subscribedClient (clientId : String) (remoteAddr : SocketAddr) (now : Nat) :
    StratumClient where
  id := clientId
  workerName := "unknown"
  difficulty := 1_000_000
  subscribed := true
  authorized := false
  sharesAccepted := 0
  sharesRejected := 0
  connectedAt := now
  lastActivity := now
  remoteAddr := some remoteAddr
  sender := none

/-- The name of the worker in `mining.authorize`, `src/stratum.rs:349`. -/
def workerName (params : List Value) : String := (params[0]?.bind Value.asStr).getD "unknown"

/-- The reply to `mining.authorize` and `mining.submit`. -/
def trueReply (id : Option U64) : Value :=
  reply ((id.map fun n ↦ .number (.posInt n)).getD .null) (.bool true) .null

/-- The arms of the loop for a message, `src/stratum.rs:326–404`: the clients afterwards, and
the reply. -/
def handleMessage (clientId : String) (remoteAddr : SocketAddr) (now : Nat) (clients : Clients)
    (message : StratumMessage) : Clients × Option Value :=
  if message.method = "mining.subscribe" then
    (clients.insert clientId (subscribedClient clientId remoteAddr now), none)
  else if message.method = "mining.authorize" then
    (if 2 ≤ message.params.length then
      clients.modify clientId fun client ↦ { client with
        workerName := workerName message.params
        authorized := true
        lastActivity := now }
    else clients, some (trueReply message.id))
  else if message.method = "mining.submit" then
    if 5 ≤ message.params.length then
      (clients.modify clientId fun client ↦ { client with
        sharesAccepted := client.sharesAccepted + 1
        lastActivity := now }, some (trueReply message.id))
    else (clients, none)
  else (clients, none)

/-- The rate limit counts a line, `src/stratum.rs:305–311`. -/
def Handler.count (handler : Handler) (now : Nat) : Handler :=
  let handler :=
    if second ≤ now - handler.rateLimitWindow then
      { handler with messageCount := 0, rateLimitWindow := now }
    else handler
  { handler with messageCount := handler.messageCount + 1 }

/-- An iteration of the loop, `src/stratum.rs:290–427`. -/
def handleRead (config : HandlerConfig) (fromJsonLine : String → Except String StratumMessage)
    (clientId : String) (handler : Handler) (clients : Clients) (e : ReadEvent) : Handled :=
  match e.read with
  | .endOfStream => ⟨clients.erase clientId, none, .error .closed⟩
  | .line text =>
    let handler := handler.count e.now
    if config.rateLimit < handler.messageCount then ⟨clients, none, .error .rateLimited⟩
    else
      let handler := { handler with lastMessageTime := e.now }
      match lineMessage fromJsonLine text with
      | none => ⟨clients, none, .ok handler⟩
      | some message =>
        match handleMessage clientId handler.remoteAddr e.now clients message with
        | (clients, none) => ⟨clients, none, .ok handler⟩
        | (clients, some reply) => .write clients handler reply e.write
  | .error _ => ⟨clients, none, .error .readError⟩
  | .timeout =>
    if config.clientTimeout < e.now - handler.lastMessageTime then
      ⟨clients.erase clientId, none, .error .inactive⟩
    else ⟨clients, none, .ok handler⟩

/-! ### What an iteration does -/

theorem remoteAddr_count (handler : Handler) (now : Nat) :
    (handler.count now).remoteAddr = handler.remoteAddr := by
  unfold Handler.count
  split <;> rfl

/-- The message that an iteration handles: one within the rate limit. -/
def handledMessage (config : HandlerConfig)
    (fromJsonLine : String → Except String StratumMessage) (handler : Handler) (e : ReadEvent) :
    Option StratumMessage :=
  match e.read with
  | .line text =>
    if config.rateLimit < (handler.count e.now).messageCount then none
    else lineMessage fromJsonLine text
  | _ => none

/-- A message is answered: every authorization, and a submission with all its parameters. -/
def StratumMessage.Answered (message : StratumMessage) : Prop :=
  message.method = "mining.authorize" ∨
    message.method = "mining.submit" ∧ 5 ≤ message.params.length

instance (message : StratumMessage) : Decidable message.Answered :=
  inferInstanceAs (Decidable (_ ∨ _))

section Arms

variable (clientId : String) (remoteAddr : SocketAddr) (now : Nat) (clients : Clients)
  (message : StratumMessage)

/-- A message is replied to exactly if it is answered, with the result `true`. -/
theorem handleMessage_reply :
    (handleMessage clientId remoteAddr now clients message).2 =
      if message.Answered then some (trueReply message.id) else none := by
  unfold handleMessage
  by_cases hs : message.method = "mining.subscribe"
  · have hn : ¬message.Answered := by
      rintro (h | ⟨h, -⟩)
      · exact absurd (hs.symm.trans h) (by decide)
      · exact absurd (hs.symm.trans h) (by decide)
    rw [if_pos hs]
    exact (if_neg hn).symm
  · rw [if_neg hs]
    by_cases ha : message.method = "mining.authorize"
    · rw [if_pos ha]
      exact (if_pos (.inl ha)).symm
    · rw [if_neg ha]
      by_cases hm : message.method = "mining.submit"
      · rw [if_pos hm]
        by_cases hl : 5 ≤ message.params.length
        · rw [if_pos hl]
          exact (if_pos (.inr ⟨hm, hl⟩)).symm
        · rw [if_neg hl]
          exact (if_neg fun h ↦ h.elim ha fun h ↦ hl h.2).symm
      · rw [if_neg hm]
        exact (if_neg fun h ↦ h.elim ha fun h ↦ hm h.1).symm

/-- A message changes the record of its own client, if there is one, and a subscription
stores one. -/
theorem lookup_handleMessage (k : String) :
    (handleMessage clientId remoteAddr now clients message).1.lookup k =
      if k ≠ clientId then clients.lookup k
      else if message.method = "mining.subscribe" then
        some (subscribedClient clientId remoteAddr now)
      else (clients.lookup clientId).map fun client ↦
        if message.method = "mining.authorize" ∧ 2 ≤ message.params.length then
          { client with
            workerName := workerName message.params
            authorized := true
            lastActivity := now }
        else if message.method = "mining.submit" ∧ 5 ≤ message.params.length then
          { client with
            sharesAccepted := client.sharesAccepted + 1
            lastActivity := now }
        else client := by
  unfold handleMessage
  by_cases hk : k = clientId
  · subst hk
    rw [if_neg (not_not_intro rfl)]
    by_cases hs : message.method = "mining.subscribe"
    · rw [if_pos hs, if_pos hs, Finmap.lookup_insert]
    · rw [if_neg hs, if_neg hs]
      by_cases ha : message.method = "mining.authorize"
      · rw [if_pos ha]
        by_cases hl : 2 ≤ message.params.length
        · simp [ha, hl, Table.lookup_modify]
        · simp [ha, hl]
      · rw [if_neg ha]
        by_cases hm : message.method = "mining.submit"
        · by_cases hl : 5 ≤ message.params.length
          · simp [hm, hl, Table.lookup_modify]
          · simp [hm, hl]
        · simp [ha, hm]
  · rw [if_pos hk]
    split_ifs
    · exact Finmap.lookup_insert_of_ne _ hk
    · rw [Table.lookup_modify, if_neg hk]
    · rfl
    · rw [Table.lookup_modify, if_neg hk]
    · rfl
    · rfl

end Arms

section Iterations

variable (config : HandlerConfig) (fromJsonLine : String → Except String StratumMessage)
  (clientId : String) (handler : Handler) (clients : Clients) (e : ReadEvent)

/-- The peer is gone: the end of the stream, or a silence longer than the timeout. -/
def Closes : Prop :=
  match e.read with
  | .endOfStream => True
  | .timeout => config.clientTimeout < e.now - handler.lastMessageTime
  | _ => False

/-- The loop is left for a read error or too many lines. -/
def Breaks : Prop :=
  match e.read with
  | .error _ => True
  | .line _ => config.rateLimit < (handler.count e.now).messageCount
  | _ => False

/-- The reply to a message cannot be written. -/
def WriteFails : Prop :=
  ∃ message error, handledMessage config fromJsonLine handler e = some message ∧
    message.Answered ∧ e.write = .error error

/-- The clients after a message. -/
abbrev messageClients (message : StratumMessage) : Clients :=
  (handleMessage clientId handler.remoteAddr e.now clients message).1

/-- What an iteration can do. -/
inductive Iteration : Handled → Prop
  | removed (exit : Exit) (hc : Closes config handler e) :
      Iteration ⟨clients.erase clientId, none, .error exit⟩
  | broken (exit : Exit) (hb : Breaks config handler e) : Iteration ⟨clients, none, .error exit⟩
  | idle (next : Handler) (hm : handledMessage config fromJsonLine handler e = none)
      (hc : ¬Closes config handler e) (hb : ¬Breaks config handler e) :
      Iteration ⟨clients, none, .ok next⟩
  | silent (next : Handler) (message : StratumMessage)
      (hm : handledMessage config fromJsonLine handler e = some message)
      (ha : ¬message.Answered) :
      Iteration ⟨messageClients clientId handler clients e message, none, .ok next⟩
  | answered (next : Handler) (message : StratumMessage)
      (hm : handledMessage config fromJsonLine handler e = some message)
      (ha : message.Answered) (hw : e.write = .ok ()) :
      Iteration ⟨messageClients clientId handler clients e message,
        some (trueReply message.id), .ok next⟩
  | failed (exit : Exit) (message : StratumMessage)
      (hm : handledMessage config fromJsonLine handler e = some message)
      (ha : message.Answered) (error : String) (hw : e.write = .error error) :
      Iteration ⟨messageClients clientId handler clients e message, none, .error exit⟩

variable {config fromJsonLine handler e} in
/-- An iteration that handles a message stores its clients, and writes the reply if there is
one. -/
theorem handleRead_of_message {message : StratumMessage}
    (h : handledMessage config fromJsonLine handler e = some message) :
    handleRead config fromJsonLine clientId handler clients e =
      let next := { handler.count e.now with lastMessageTime := e.now }
      if message.Answered then
        .write (messageClients clientId handler clients e message) next (trueReply message.id)
          e.write
      else ⟨messageClients clientId handler clients e message, none, .ok next⟩ := by
  have hreply := handleMessage_reply clientId handler.remoteAddr e.now clients message
  unfold handledMessage at h
  split at h
  · next text hread =>
    rw [ite_eq_iff'] at h
    have hrate : ¬config.rateLimit < (handler.count e.now).messageCount := fun hr ↦ nomatch h.1 hr
    simp only [handleRead, hread, if_neg hrate, h.2 hrate, remoteAddr_count]
    rw [← Prod.mk.eta (p := handleMessage clientId handler.remoteAddr e.now clients message),
      hreply]
    by_cases ha : message.Answered
    · rw [if_pos ha, if_pos ha]
    · rw [if_neg ha, if_neg ha]
  · cases h

/-- Each iteration does one of these. -/
theorem iteration_handleRead :
    Iteration config fromJsonLine clientId handler clients e
      (handleRead config fromJsonLine clientId handler clients e) := by
  cases hm : handledMessage config fromJsonLine handler e with
  | some message =>
    rw [handleRead_of_message clientId clients hm]
    dsimp only
    by_cases ha : message.Answered
    · rw [if_pos ha]
      cases hw : e.write with
      | ok _ => exact .answered _ message hm ha hw
      | error error => exact .failed _ message hm ha error hw
    · rw [if_neg ha]
      exact .silent _ message hm ha
  | none =>
    unfold handleRead
    split
    · next h => exact .removed _ (by simp [Closes, h])
    · next text h =>
      dsimp only
      split
      · next hr => exact .broken _ (by simpa [Breaks, h] using hr)
      · next hr =>
        simp only [handledMessage, h, if_neg hr] at hm
        rw [hm]
        exact .idle _ (by simp [handledMessage, h, hm]) (by simp [Closes, h])
          (by simpa [Breaks, h] using hr)
    · next h => exact .broken _ (by simp [Breaks, h])
    · next h =>
      split
      · next ht => exact .removed _ (by simpa [Closes, h] using ht)
      · next ht => exact .idle _ hm (by simpa [Closes, h] using ht) (by simp [Breaks, h])

variable {config fromJsonLine clientId handler clients e}

/-- An iteration that handles a message does not leave the loop before. -/
theorem not_breaks_of_handledMessage {message : StratumMessage}
    (h : handledMessage config fromJsonLine handler e = some message) :
    ¬Breaks config handler e := by
  unfold handledMessage at h
  unfold Breaks
  split at h
  · next text hr =>
    rw [hr]
    intro hb
    rw [if_pos hb] at h
    cases h
  · cases h

/-- An iteration that handles a message does not find the peer gone. -/
theorem not_closes_of_handledMessage {message : StratumMessage}
    (h : handledMessage config fromJsonLine handler e = some message) :
    ¬Closes config handler e := by
  unfold handledMessage at h
  unfold Closes
  split at h
  · next text hr =>
    rw [hr]
    exact not_false
  · cases h

/-- An iteration that finds the peer gone does not leave the loop for another reason. -/
theorem not_left_of_closes (h : Closes config handler e) :
    ¬(Breaks config handler e ∨ WriteFails config fromJsonLine handler e) := by
  rintro (hb | ⟨message, error, hm, -, -⟩)
  · unfold Closes at h
    unfold Breaks at hb
    split at h <;> simp_all
  · exact not_closes_of_handledMessage hm h

/-- The clients after an iteration that handles a message, and the reply. -/
theorem Iteration.of_message {handled : Handled} {message : StratumMessage}
    (h : Iteration config fromJsonLine clientId handler clients e handled)
    (hm : handledMessage config fromJsonLine handler e = some message) :
    handled.clients = messageClients clientId handler clients e message ∧
      (handled.written = some (trueReply message.id) ∨ handled.written = none) ∧
      (handled.written ≠ none ↔ message.Answered ∧ e.write = .ok ()) := by
  cases h with
  | removed _ hc => exact absurd hc (not_closes_of_handledMessage hm)
  | broken _ hb => exact absurd hb (not_breaks_of_handledMessage hm)
  | idle _ hm' _ _ => cases hm.symm.trans hm'
  | silent _ message' hm' ha =>
    cases hm.symm.trans hm'
    exact ⟨rfl, .inr rfl, iff_of_false (fun h ↦ h rfl) fun h ↦ ha h.1⟩
  | answered _ message' hm' ha hw =>
    cases hm.symm.trans hm'
    exact ⟨rfl, .inl rfl, iff_of_true (Option.some_ne_none _) ⟨ha, hw⟩⟩
  | failed _ message' hm' ha error hw =>
    cases hm.symm.trans hm'
    refine ⟨rfl, .inr rfl, iff_of_false (fun h ↦ h rfl) fun h ↦ ?_⟩
    cases hw.symm.trans h.2

/-- An iteration that handles no message stores nothing. -/
theorem Iteration.lookup_of_no_message {handled : Handled} {k : String} {client : StratumClient}
    (h : Iteration config fromJsonLine clientId handler clients e handled)
    (hm : handledMessage config fromJsonLine handler e = none)
    (hl : handled.clients.lookup k = some client) : clients.lookup k = some client := by
  cases h with
  | removed _ _ =>
    exact Table.forall_lookup_erase (P := fun k v ↦ clients.lookup k = some v)
      (fun _ _ _ hw ↦ hw) k client hl
  | broken _ _ => exact hl
  | idle _ _ _ _ => exact hl
  | silent _ _ hm' _ => cases hm.symm.trans hm'
  | answered _ _ hm' _ _ => cases hm.symm.trans hm'
  | failed _ _ hm' _ _ _ => cases hm.symm.trans hm'

/-- An iteration leaves the records of the other clients alone. -/
theorem Iteration.lookup_of_ne {handled : Handled} {k : String}
    (h : Iteration config fromJsonLine clientId handler clients e handled) (hk : k ≠ clientId) :
    handled.clients.lookup k = clients.lookup k := by
  cases h with
  | removed _ _ => exact Finmap.lookup_erase_ne hk
  | broken _ _ => rfl
  | idle _ _ _ _ => rfl
  | silent _ message _ _ => exact (lookup_handleMessage _ _ _ _ _ k).trans (if_pos hk)
  | answered _ message _ _ _ => exact (lookup_handleMessage _ _ _ _ _ k).trans (if_pos hk)
  | failed _ message _ _ _ _ => exact (lookup_handleMessage _ _ _ _ _ k).trans (if_pos hk)

/-- When an iteration ends the loop, the client is stored no more exactly if it was not
stored before or the loop was left because the peer is gone. -/
theorem Iteration.lookup_eq_none_iff {handled : Handled} {exit : Exit}
    (h : Iteration config fromJsonLine clientId handler clients e handled)
    (hexit : handled.next = .error exit) : handled.clients.lookup clientId = none ↔
      (Breaks config handler e ∨ WriteFails config fromJsonLine handler e →
        clients.lookup clientId = none) := by
  cases h with
  | removed _ hc =>
    exact iff_of_true (Finmap.lookup_erase clientId clients) fun hl ↦
      absurd hl (not_left_of_closes hc)
  | broken _ hb => exact ⟨fun hn _ ↦ hn, fun hn ↦ hn (.inl hb)⟩
  | idle _ _ _ _ => cases hexit
  | silent _ _ _ _ => cases hexit
  | answered _ _ _ _ _ => cases hexit
  | failed _ message hm ha error hw =>
    have hs : message.method ≠ "mining.subscribe" := by
      intro hs
      obtain h | ⟨h, -⟩ := ha
      · exact absurd (hs.symm.trans h) (by decide)
      · exact absurd (hs.symm.trans h) (by decide)
    have hl : (messageClients clientId handler clients e message).lookup clientId = none ↔
        clients.lookup clientId = none := by
      rw [lookup_handleMessage, if_neg (not_not_intro rfl), if_neg hs, Option.map_eq_none_iff]
    rw [hl]
    exact ⟨fun hn _ ↦ hn, fun hn ↦ hn (.inr ⟨message, error, hm, ha, hw⟩)⟩

/-- A read error, a failed write and too many lines end the loop. -/
theorem Iteration.exit_of_left {handled : Handled}
    (h : Iteration config fromJsonLine clientId handler clients e handled)
    (hleft : Breaks config handler e ∨ WriteFails config fromJsonLine handler e) :
    ∃ exit, handled.next = .error exit := by
  cases h with
  | removed exit _ => exact ⟨exit, rfl⟩
  | broken exit _ => exact ⟨exit, rfl⟩
  | failed exit _ _ _ _ _ => exact ⟨exit, rfl⟩
  | idle _ hm _ hb =>
    obtain hb' | ⟨message, error, hm', -, -⟩ := hleft
    · exact absurd hb' hb
    · cases hm.symm.trans hm'
  | silent _ message hm ha =>
    obtain hb | ⟨message', error, hm', ha', -⟩ := hleft
    · exact absurd hb (not_breaks_of_handledMessage hm)
    · cases hm.symm.trans hm'
      exact absurd ha' ha
  | answered _ message hm ha hw =>
    obtain hb | ⟨message', error, -, -, hw'⟩ := hleft
    · exact absurd hb (not_breaks_of_handledMessage hm)
    · cases hw.symm.trans hw'

end Iterations
end SilverPow.Server
