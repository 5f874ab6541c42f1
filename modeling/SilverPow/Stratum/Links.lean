import SilverPow.Base.Run
import SilverPow.Stratum.Connection
import SilverPow.Stratum.Handshake

/-!
# A client and its pool

A client with all the connections that it has opened to a pool. What the client writes on a
connection is read there in order, and so are the lines that the pool writes; either side may
stop at any time, and old connections are read to their end. The pool is any program that reads
lines and writes lines.
-/

namespace SilverPow.Stratum

open SilverPow.Base

/-- The pool's side of a connection: what accepts it, and what a line does. Lines that are
written stay written. -/
structure PoolSide where
  Opening : Type
  Handler : Type
  Turn : Type
  start : Opening → Handler
  step : Handler → Line → Turn → Handler
  running : Handler → Bool
  replies : Handler → List Value
  grows : ∀ handler line turn, replies handler <+: replies (step handler line turn)

/-- A connection: the requests written to it and how many were read, the pool's side, and how
many of its lines the client has read. -/
structure Link (side : PoolSide) where
  requests : List Value
  handled : Nat
  handler : side.Handler
  taken : Nat

/-- A client, the connection that it reads from and writes to, and those before it. -/
structure Conversation (side : PoolSide) where
  miner : StratumPoolClient
  current : Option (Link side)
  earlier : List (Link side)

/-- What happens next. A call may open a connection, with what accepts it there, and write a
request; a write that is `broken` may have arrived or not. The client reads the next line, or its
reading fails, and then the rest of a line may be lost. The pool's side of the current connection
or of an earlier one reads the next request, or any other line. -/
inductive LinkEvent (side : PoolSide) where
  | call (action : ClientAction) (broken : Option String) (arrives : Bool)
      (opening : side.Opening)
  | nextLine (broken : Option String) (arrives : Bool)
  | readError (e : String) (lost : Bool)
  | timeout
  | request (earlier : Option Nat) (turn : side.Turn)
  | otherLine (earlier : Option Nat) (line : Line) (turn : side.Turn)

namespace Link

variable {side : PoolSide} (link : Link side)

/-- A connection that was just accepted. -/
def accepted (opening : side.Opening) : Link side := ⟨[], 0, side.start opening, 0⟩

/-- A request is written. -/
def write (request : Value) : Link side := { link with requests := link.requests ++ [request] }

/-- The client has read a line. -/
def take : Link side := { link with taken := link.taken + 1 }

/-- The pool's side reads the next request. -/
def request (turn : side.Turn) : Option (Link side) :=
  match link.requests[link.handled]?, side.running link.handler with
  | some request, true =>
    some { link with
      handled := link.handled + 1
      handler := side.step link.handler (.request request) turn }
  | _, _ => none

/-- The pool's side reads anything else. -/
def otherLine (turn : side.Turn) : Line → Option (Link side)
  | .request _ => none
  | line =>
    if side.running link.handler then
      some { link with handler := side.step link.handler line turn }
    else none

end Link

namespace Conversation

variable {side : PoolSide}

/-- The connections, the current one first. -/
def links (s : Conversation side) : List (Link side) := s.current.toList ++ s.earlier

/-- A client before its first call. -/
def start (miner : StratumPoolClient) : Conversation side := ⟨miner, none, []⟩

/-- A connection after a request that has arrived or not, if there is one. -/
def written (link : Link side) (arrived : Bool) : Option Value → Link side
  | some request => if arrived then link.write request else link
  | none => link

/-- The connections after the client has acted. -/
def after (s : Conversation side) (acted : Acted) (arrived : Bool) (accepted : Option (Link side)) :
    Conversation side :=
  if acted.opened then
    ⟨acted.client, accepted.map (written · arrived acted.request), s.links⟩
  else ⟨acted.client, s.current.map (written · arrived acted.request), s.earlier⟩

/-- One of the connections changes. -/
def update (s : Conversation side) (f : Link side → Option (Link side)) :
    Option Nat → Option (Conversation side)
  | none => do
    let link ← s.current
    let link ← f link
    some { s with current := some link }
  | some i => do
    let link ← s.earlier[i]?
    let link ← f link
    some { s with earlier := s.earlier.set i link }

/-- The conversation after an event, if it can happen. -/
def step (text : ValueText) (s : Conversation side) : LinkEvent side → Option (Conversation side)
  | .call action broken arrives opening => do
    let acted ← s.miner.act broken action
    some (s.after acted (broken.isNone || arrives) (some (.accepted opening)))
  | .nextLine broken arrives => do
    let link ← s.current
    let line ← (side.replies link.handler)[link.taken]?
    let acted ← s.miner.read text (.value line) broken
    some ({ s with current := some link.take }.after acted (broken.isNone || arrives) none)
  | .readError e lost => do
    let acted ← s.miner.read text (.error e) none
    let current := if lost then s.current.map Link.take else s.current
    some ({ s with current }.after acted true none)
  | .timeout => do
    let acted ← s.miner.read text .timeout none
    some (s.after acted true none)
  | .request earlier turn => s.update (·.request turn) earlier
  | .otherLine earlier line turn => s.update (·.otherLine turn line) earlier

/-- The states of a conversation, with the events on the way. -/
abbrev ConversationRun (text : ValueText) (side : PoolSide) (miner : StratumPoolClient) :
    List (LinkEvent side) → Conversation side → Prop :=
  Run (fun s e s' ↦ s.step text e = some s') (start miner)

end Conversation

/-! ### What the client has read and written -/

namespace Link

variable {side : PoolSide} {text : ValueText} {address : String} {link link' : Link side}

/-- The pool's side has written a line that the client takes for a subscription. -/
def Subscribed (text : ValueText) (link : Link side) (id : String) : Prop :=
  ∃ line ∈ side.replies link.handler, subscribeResult text (.value line) = .ok id

/-- The pool's side has written a line that the client takes for an authorization. -/
def Approved (text : ValueText) (link : Link side) : Prop :=
  ∃ line ∈ side.replies link.handler, authorizeResult text (.value line) = .ok ()

/-- The first request subscribes the client's address, and every other came after the line that
it had to wait for. -/
structure Sound (text : ValueText) (address : String) (link : Link side) : Prop where
  first : ∀ request : Value, link.requests[0]? = some request →
    Asks request "mining.subscribe" [.string address]
  later : ∀ (i : Nat) (request : Value), link.requests[i + 1]? = some request →
    (∃ id, link.Subscribed text id) ∧
      (Asks request "mining.authorize" [.string address, .string ""] ∨
        link.Approved text ∧ AsksAuthorized address request)

/-- The connection goes on: what the pool's side has written stays. -/
def Grows (link link' : Link side) : Prop :=
  link'.requests = link.requests ∧ side.replies link.handler <+: side.replies link'.handler

theorem Grows.subscribed (h : Grows link link') {id : String} (hs : link.Subscribed text id) :
    link'.Subscribed text id := by
  obtain ⟨line, hl, hr⟩ := hs
  exact ⟨line, h.2.subset hl, hr⟩

theorem Grows.approved (h : Grows link link') (ha : link.Approved text) : link'.Approved text := by
  obtain ⟨line, hl, hr⟩ := ha
  exact ⟨line, h.2.subset hl, hr⟩

theorem Grows.sound (h : Grows link link') (hs : link.Sound text address) :
    link'.Sound text address := by
  constructor
  · intro request hr
    rw [h.1] at hr
    exact hs.first request hr
  · intro i request hr
    rw [h.1] at hr
    obtain ⟨⟨id, hid⟩, hasks⟩ := hs.later i request hr
    exact ⟨⟨id, h.subscribed hid⟩, hasks.imp_right fun ha ↦ ⟨h.approved ha.1, ha.2⟩⟩

theorem grows_take (link : Link side) : Grows link link.take := ⟨rfl, List.prefix_rfl⟩

/-- The pool's side reads a request, or any other line. -/
theorem grows_request {turn : side.Turn} (h : link.request turn = some link') :
    Grows link link' := by
  unfold request at h
  split at h
  · cases h
    exact ⟨rfl, side.grows ..⟩
  · cases h

theorem grows_otherLine {turn : side.Turn} {line : Line}
    (h : link.otherLine turn line = some link') : Grows link link' := by
  unfold otherLine at h
  split at h
  · cases h
  · split at h
    · cases h
      exact ⟨rfl, side.grows ..⟩
    · cases h

/-- A new connection starts with a subscription. -/
theorem sound_accepted (opening : side.Opening) : (accepted opening).Sound text address :=
  ⟨nofun, nofun⟩

theorem sound_write_accepted (opening : side.Opening) {request : Value}
    (h : Asks request "mining.subscribe" [.string address]) :
    ((accepted opening).write request).Sound text address := by
  constructor
  · rintro _ ⟨⟩
    exact h
  · intro i request' hr
    cases hr

/-- Another request comes after the lines that it waits for. -/
theorem sound_write (h : link.Sound text address) (hne : link.requests ≠ []) {id : String}
    (hid : link.Subscribed text id) {request : Value}
    (hasks : Asks request "mining.authorize" [.string address, .string ""] ∨
      link.Approved text ∧ AsksAuthorized address request) :
    (link.write request).Sound text address := by
  have hpos := List.length_pos_of_ne_nil hne
  constructor
  · intro request' hr
    rw [write, List.getElem?_append_left hpos] at hr
    exact h.first request' hr
  · intro i request' hr
    by_cases hlt : i + 1 < link.requests.length
    · rw [write, List.getElem?_append_left hlt] at hr
      exact h.later i request' hr
    · rw [write, List.getElem?_append_right (Nat.le_of_not_lt hlt)] at hr
      rw [List.getElem?_singleton] at hr
      obtain ⟨-, hr⟩ := Option.ite_none_right_eq_some.mp hr
      cases hr
      exact ⟨⟨id, hid⟩, hasks⟩

end Link

namespace Conversation

variable {side : PoolSide} {text : ValueText} {address : String} {s s' : Conversation side}

/-- The connection that the client uses has a first request, and a line that gave the client its
subscription. -/
def Holds (text : ValueText) (s : Conversation side) (link : Link side) : Prop :=
  s.current = some link ∧ link.requests ≠ [] ∧
    ∃ id, s.miner.subscriptionId = some id ∧ link.Subscribed text id

/-- On every connection the client has kept to the order of the handshake, and its state says
how far it has come on the current one. -/
structure Sound (text : ValueText) (address : String) (s : Conversation side) : Prop where
  own : s.miner.client.minerAddress = address
  links : ∀ link ∈ s.links, link.Sound text address
  subscribing : s.miner.waiting = .subscribing →
    ∃ link, s.current = some link ∧ link.requests ≠ []
  authorizing : s.miner.waiting = .authorizing → ∃ link, s.Holds text link
  authorized : s.miner.isAuthorized = true → ∃ link, s.Holds text link ∧ link.Approved text

/-- One connection takes the place of another. -/
inductive Replaces : Conversation side → Link side → Link side → Conversation side → Prop
  | current {miner : StratumPoolClient} {earlier : List (Link side)} {link link' : Link side} :
      Replaces ⟨miner, some link, earlier⟩ link link' ⟨miner, some link', earlier⟩
  | earlier {miner : StratumPoolClient} {current : Option (Link side)}
      {earlier : List (Link side)} {link link' : Link side} {i : Nat} :
      earlier[i]? = some link →
      Replaces ⟨miner, current, earlier⟩ link link' ⟨miner, current, earlier.set i link'⟩

/-- An update replaces a connection by what becomes of it. -/
theorem replaces_of_update {f : Link side → Option (Link side)} {which : Option Nat}
    (h : s.update f which = some s') :
    ∃ link link', f link = some link' ∧ Replaces s link link' s' := by
  obtain ⟨miner, current, earlier⟩ := s
  cases which with
  | none =>
    obtain ⟨link, rfl, h⟩ := Option.bind_eq_some_iff.mp h
    obtain ⟨link', hf, h⟩ := Option.bind_eq_some_iff.mp h
    cases h
    exact ⟨link, link', hf, .current⟩
  | some i =>
    obtain ⟨link, hi, h⟩ := Option.bind_eq_some_iff.mp h
    obtain ⟨link', hf, h⟩ := Option.bind_eq_some_iff.mp h
    cases h
    exact ⟨link, link', hf, .earlier hi⟩

/-- The connections after one was replaced. -/
theorem Replaces.mem_links {link link' : Link side} (h : Replaces s link link' s')
    {other : Link side} (ho : other ∈ s'.links) : other = link' ∨ other ∈ s.links := by
  cases h with
  | current =>
    rcases List.mem_cons.mp ho with rfl | ho
    · exact .inl rfl
    · exact .inr (List.mem_cons_of_mem _ ho)
  | earlier hi =>
    rcases List.mem_append.mp ho with ho | ho
    · exact .inr (List.mem_append_left _ ho)
    · exact (List.mem_or_eq_of_mem_set ho).symm.imp_right (List.mem_append_right _)

/-- The replaced connection was one of them. -/
theorem Replaces.mem {link link' : Link side} (h : Replaces s link link' s') : link ∈ s.links := by
  cases h with
  | current => exact List.mem_cons_self
  | earlier hi => exact List.mem_append_right _ (List.mem_of_getElem? hi)

/-- A connection that goes on keeps the conversation sound. -/
theorem Replaces.sound {link link' : Link side} (h : Replaces s link link' s')
    (hg : link.Grows link') (hs : s.Sound text address) : s'.Sound text address := by
  have hlinks : ∀ other ∈ s'.links, other.Sound text address := by
    intro other ho
    rcases h.mem_links ho with rfl | ho
    · exact hg.sound (hs.links link h.mem)
    · exact hs.links other ho
  cases h with
  | earlier hi =>
    exact ⟨hs.own, hlinks, hs.subscribing, hs.authorizing, hs.authorized⟩
  | current =>
    refine ⟨hs.own, hlinks, fun hw ↦ ?_, fun hw ↦ ?_, fun ha ↦ ?_⟩
    · obtain ⟨_, ⟨⟩, hne⟩ := hs.subscribing hw
      exact ⟨link', rfl, by rwa [hg.1]⟩
    · obtain ⟨_, ⟨⟩, hne, id, hid, hsub⟩ := hs.authorizing hw
      exact ⟨link', rfl, by rwa [hg.1], id, hid, hg.subscribed hsub⟩
    · obtain ⟨_, ⟨⟨⟩, hne, id, hid, hsub⟩, happ⟩ := hs.authorized ha
      exact ⟨link', ⟨rfl, by rwa [hg.1], id, hid, hg.subscribed hsub⟩, hg.approved happ⟩

/-- The line that a client acts on is one that the pool's side has written. -/
def Wrote (s : Conversation side) (line : Option Incoming) : Prop :=
  ∀ value, line = some (.value value) →
    ∃ link, s.current = some link ∧ value ∈ side.replies link.handler

/-- A subscription is read from a line with a value, and so is an authorization. -/
theorem Wrote.subscribed {line : Incoming} {id : String} (h : s.Wrote (some line))
    (hr : subscribeResult text line = .ok id) {link : Link side} (hc : s.current = some link) :
    link.Subscribed text id := by
  cases line with
  | value value =>
    obtain ⟨_, hl, hv⟩ := h value rfl
    cases hc.symm.trans hl
    exact ⟨value, hv, hr⟩
  | error e => cases hr
  | timeout => cases hr

theorem Wrote.approved {line : Incoming} (h : s.Wrote (some line))
    (hr : authorizeResult text line = .ok ()) {link : Link side} (hc : s.current = some link) :
    link.Approved text := by
  cases line with
  | value value =>
    obtain ⟨_, hl, hv⟩ := h value rfl
    cases hc.symm.trans hl
    exact ⟨value, hv, hr⟩
  | error e => cases hr
  | timeout => cases hr

/-- What a connection's pool side has written does not change by a request. -/
@[simp] theorem handler_written (link : Link side) (arrived : Bool) (request : Option Value) :
    (written link arrived request).handler = link.handler := by
  unfold written
  split
  · split <;> rfl
  · rfl

theorem requests_written_ne_nil {link : Link side} (h : link.requests ≠ []) (arrived : Bool)
    (request : Option Value) : (written link arrived request).requests ≠ [] := by
  unfold written
  split
  · split
    · exact List.append_ne_nil_of_left_ne_nil h _
    · exact h
  · exact h

/-- A request that may be written keeps a connection sound. -/
theorem sound_written {link : Link side} (hs : link.Sound text address) (arrived : Bool)
    {request : Option Value} (h : ∀ v ∈ request, (link.write v).Sound text address) :
    (written link arrived request).Sound text address := by
  unfold written
  split
  · next v =>
    split
    · exact h v rfl
    · exact hs
  · exact hs

/-- A connection that holds still does with what was written to it. -/
theorem Holds.written {link : Link side} {request : Option Value} {arrived : Bool}
    {c : StratumPoolClient} (h : s.Holds text link)
    (hid : c.subscriptionId = s.miner.subscriptionId) :
    Holds text ⟨c, s.current.map (written · arrived request), s.earlier⟩
      (written link arrived request) := by
  obtain ⟨hc, hne, id, hi, hsub⟩ := h
  refine ⟨by rw [hc]; rfl, requests_written_ne_nil hne arrived request, id, hid.trans hi, ?_⟩
  unfold Link.Subscribed
  rwa [handler_written]

/-- A new connection is sound, and so is the conversation that waits for its first line. -/
theorem sound_opened (hs : s.Sound text address) {c : StratumPoolClient} {request : Value}
    {arrived : Bool} (opening : side.Opening) (hown : c.client.minerAddress = address)
    (hauth : c.isAuthorized = false) (hna : c.waiting ≠ .authorizing)
    (hsub : c.waiting = .subscribing → arrived = true)
    (hasks : Asks request "mining.subscribe" [.string address]) :
    Sound text address
      ⟨c, some (written (.accepted opening) arrived (some request)), s.links⟩ := by
  refine ⟨hown, ?_, fun hw ↦ ?_, fun hw ↦ absurd hw hna, fun ha ↦ ?_⟩
  · intro link hl
    rcases List.mem_cons.mp hl with rfl | hl
    · refine sound_written (Link.sound_accepted opening) arrived ?_
      rintro _ ⟨⟩
      exact Link.sound_write_accepted opening hasks
    · exact hs.links link hl
  · rw [hsub hw]
    exact ⟨_, rfl, List.cons_ne_nil _ _⟩
  · cases hauth.symm.trans ha

/-- The client goes on with the connection that it has. -/
theorem sound_continued (hs : s.Sound text address) {c : StratumPoolClient}
    {request : Option Value} {arrived : Bool} (hown : c.client.minerAddress = address)
    (hwrite : ∀ link, s.current = some link → ∀ v ∈ request, (link.write v).Sound text address)
    (hns : c.waiting ≠ .subscribing)
    (hid : c.waiting = .authorizing ∨ c.isAuthorized = true → ∃ link,
      Holds text ⟨c, s.current, s.earlier⟩ link ∧ (c.isAuthorized = true → link.Approved text)) :
    Sound text address ⟨c, s.current.map (written · arrived request), s.earlier⟩ := by
  refine ⟨hown, ?_, fun hw ↦ absurd hw hns, fun hw ↦ ?_, fun ha ↦ ?_⟩
  · intro link hl
    rcases List.mem_append.mp hl with hl | hl
    · obtain ⟨old, hc, rfl⟩ := Option.map_eq_some_iff.mp (Option.mem_toList.mp hl)
      exact sound_written (hs.links old (by simp [links, hc])) arrived (hwrite old hc)
    · exact hs.links link (List.mem_append_right _ hl)
  · obtain ⟨link, hh, -⟩ := hid (.inl hw)
    exact ⟨_, hh.written rfl⟩
  · obtain ⟨link, hh, happ⟩ := hid (.inr ha)
    refine ⟨_, hh.written rfl, ?_⟩
    unfold Link.Approved
    rw [handler_written]
    exact happ ha

/-- Whatever the client does keeps the conversation sound. -/
theorem sound_after {broken : Option String} {line : Option Incoming} {acted : Acted}
    (hs : s.Sound text address) (ha : Acts text s.miner broken line acted) (hw : s.Wrote line)
    {arrived : Bool} (harrived : broken = none → arrived = true) {accepted : Option (Link side)}
    (haccepted : line = none → ∃ opening, accepted = some (.accepted opening)) :
    (s.after acted arrived accepted).Sound text address := by
  have hlink : ∀ {link}, s.current = some link → link.Sound text address := fun hc ↦
    hs.links _ (by simp [links, hc])
  cases ha with
  | subscribes hown hauth hna hsub hasks =>
    obtain ⟨opening, rfl⟩ := haccepted rfl
    exact sound_opened hs opening (hown.trans hs.own) hauth hna (fun h ↦ harrived (hsub h))
      (hs.own ▸ hasks)
  | authorizes hwait hr hown hauth hns hid hasks =>
    obtain ⟨link, hc, hne⟩ := hs.subscribing hwait
    have hsub := hw.subscribed hr hc
    refine sound_continued hs (hown.trans hs.own) ?_ hns fun _ ↦ ⟨link, ⟨hc, hne, _, hid, hsub⟩, ?_⟩
    · intro link' hc' v hv
      cases hc.symm.trans hc'
      exact Link.sound_write (hlink hc) hne hsub (.inl (hs.own ▸ hasks v hv))
    · intro ha
      cases hauth.symm.trans ha
  | authorized hwait hr hown hidle hid =>
    obtain ⟨link, hh⟩ := hs.authorizing hwait
    refine sound_continued hs (hown.trans hs.own) nofun (by simp [hidle]) fun _ ↦ ?_
    obtain ⟨hc, hne, id, hi, hsub⟩ := hh
    exact ⟨link, ⟨hc, hne, id, hid.trans hi, hsub⟩, fun _ ↦ hw.approved hr hc⟩
  | uses hown hauth hns hna hid hasks =>
    refine sound_continued hs (hown.trans hs.own) ?_ hns fun h ↦ ?_
    · intro link hc v hv
      obtain ⟨ha, hv⟩ := hasks v hv
      obtain ⟨_, ⟨hc', hne, id, -, hsub⟩, happ⟩ := hs.authorized ha
      cases hc.symm.trans hc'
      exact Link.sound_write (hlink hc) hne hsub (.inr ⟨happ, hs.own ▸ hv⟩)
    · obtain ⟨link, ⟨hc, hne, id, hi, hsub⟩, happ⟩ := hs.authorized (hauth (h.resolve_left hna))
      exact ⟨link, ⟨hc, hne, id, hid.trans hi, hsub⟩, fun _ ↦ happ⟩

/-- Every event keeps the conversation sound. -/
theorem sound_step (hs : s.Sound text address) {e : LinkEvent side} (h : s.step text e = some s') :
    s'.Sound text address := by
  cases e with
  | call action broken arrives opening =>
    obtain ⟨acted, ha, h⟩ := Option.bind_eq_some_iff.mp h
    cases h
    refine sound_after hs (StratumPoolClient.acts_of_act ha) nofun ?_ fun _ ↦ ⟨opening, rfl⟩
    rintro rfl
    rfl
  | nextLine broken arrives =>
    obtain ⟨link, hc, h⟩ := Option.bind_eq_some_iff.mp h
    obtain ⟨line, hl, h⟩ := Option.bind_eq_some_iff.mp h
    obtain ⟨acted, ha, h⟩ := Option.bind_eq_some_iff.mp h
    cases h
    obtain ⟨miner, current, earlier⟩ := s
    cases hc
    have ht := Replaces.current.sound link.grows_take hs
    refine sound_after ht (StratumPoolClient.acts_of_read ha) ?_ ?_ nofun
    · rintro _ ⟨⟩
      exact ⟨link.take, rfl, List.mem_of_getElem? hl⟩
    · rintro rfl
      rfl
  | readError e lost =>
    obtain ⟨acted, ha, h⟩ := Option.bind_eq_some_iff.mp h
    cases h
    have ht : Sound text address
        { s with current := if lost then s.current.map Link.take else s.current } := by
      obtain ⟨miner, current, earlier⟩ := s
      cases lost with
      | false => exact hs
      | true =>
        cases current with
        | none => exact hs
        | some link => exact Replaces.current.sound link.grows_take hs
    exact sound_after ht (StratumPoolClient.acts_of_read ha) nofun (fun _ ↦ rfl) nofun
  | timeout =>
    obtain ⟨acted, ha, h⟩ := Option.bind_eq_some_iff.mp h
    cases h
    exact sound_after hs (StratumPoolClient.acts_of_read ha) nofun (fun _ ↦ rfl) nofun
  | request earlier turn =>
    obtain ⟨link, link', hf, hr⟩ := replaces_of_update h
    exact hr.sound (Link.grows_request hf) hs
  | otherLine earlier line turn =>
    obtain ⟨link, link', hf, hr⟩ := replaces_of_update h
    exact hr.sound (Link.grows_otherLine hf) hs

/-- Whatever a pool does, on every connection the client subscribes its own address first,
authorizes only after a line that it could take for a subscription, and submits shares only after
one that it could take for an authorization. -/
theorem sound_of_run {poolAddr : String} {now : Nat} {es : List (LinkEvent side)}
    (h : ConversationRun text side (.new poolAddr address now) es s) : s.Sound text address := by
  refine h.invariant (Sound text address) ?_ fun s e s' hs he ↦ sound_step hs he
  exact ⟨rfl, nofun, nofun, nofun, nofun⟩

/-- The pool's side of the current connection reads a request. -/
theorem step_request {link link' : Link side} (hc : s.current = some link)
    {t : side.Turn} (hr : link.request t = some link') :
    s.step text (.request none t) = some { s with current := some link' } := by
  simp [step, update, hc, hr]

/-- The client reads a line, and writes at most one request. -/
theorem step_nextLine {link : Link side} (hc : s.current = some link) {line : Value}
    (hl : (side.replies link.handler)[link.taken]? = some line) {c : StratumPoolClient}
    {request : Option Value} {returned : Option Returned}
    (hr : s.miner.read text (.value line) none = some ⟨c, false, request, returned⟩) :
    s.step text (.nextLine none true) =
      some ⟨c, some (written link.take true request), s.earlier⟩ := by
  simp [step, after, hc, hl, hr]

/-- How no value is printed. -/
def sampleText : ValueText := ⟨fun _ ↦ "", fun _ ↦ ""⟩

/-- A pool that writes its lines before it reads any. -/
def scriptedSide : PoolSide :=
  ⟨List Value, List Value, Unit, id, fun lines _ _ ↦ lines, fun _ ↦ true, id,
    fun _ _ _ ↦ List.prefix_rfl⟩

/-- A subscription and an authorization that nobody has asked for. -/
def scriptedLines : List Value :=
  [reply .null (.array [.string "1"]) .null, reply .null (.bool true) .null]

/-- The client takes the lines for the replies to its requests. -/
theorem sound_of_run_scripted : ∃ es s,
    ConversationRun sampleText scriptedSide (.new "pool" "SLVRa" 0) es s ∧
      s.miner.isAuthorized = true ∧ s.Sound sampleText "SLVRa" := by
  have hs : ∃ s, [.call (.connect [none]) none true scriptedLines, .nextLine none true,
      .nextLine none true].foldlM (step sampleText)
        (start (.new "pool" "SLVRa" 0) : Conversation scriptedSide) = some s ∧
      s.miner.isAuthorized = true := by
    refine Run.exists_foldlM_cons rfl (Run.exists_foldlM_cons rfl (Run.exists_foldlM_cons rfl ?_))
    exact ⟨_, rfl, rfl⟩
  obtain ⟨s, hs, ha⟩ := hs
  have h := Run.foldlM .nil hs
  exact ⟨_, s, h, ha, sound_of_run h⟩

/-! ### Properties of each connection -/

/-- What one side of a connection does keeps a property, which the other connections of a
conversation may depend on. -/
structure LinkKept (s : Conversation side) (P : Link side → Prop) : Prop where
  accepted : ∀ opening, P (.accepted opening)
  write : ∀ (link : Link side) request, P link → P (link.write request)
  take : ∀ link : Link side, P link → P link.take
  request : ∀ (link link' : Link side) turn, link ∈ s.links → P link →
    link.request turn = some link' → P link'
  otherLine : ∀ (link link' : Link side) line turn, P link →
    link.otherLine turn line = some link' → P link'

namespace LinkKept

variable {P : Link side → Prop}

theorem written (hk : s.LinkKept P) {link : Link side} (h : P link) (arrived : Bool)
    (request : Option Value) : P (written link arrived request) := by
  unfold Conversation.written
  split
  · split
    · exact hk.write _ _ h
    · exact h
  · exact h

/-- Whatever the client does keeps a property of every connection. -/
theorem after (hk : s.LinkKept P) {t : Conversation side} (h : ∀ link ∈ t.links, P link)
    (acted : Acted) (arrived : Bool) {accepted : Option (Link side)}
    (ha : ∀ link, accepted = some link → P link) :
    ∀ link ∈ (t.after acted arrived accepted).links, P link := by
  intro link hl
  unfold Conversation.after at hl
  split at hl
  · rcases List.mem_append.mp hl with hl | hl
    · obtain ⟨old, hc, rfl⟩ := Option.map_eq_some_iff.mp (Option.mem_toList.mp hl)
      exact hk.written (ha old hc) _ _
    · exact h link hl
  · rcases List.mem_append.mp hl with hl | hl
    · obtain ⟨old, hc, rfl⟩ := Option.map_eq_some_iff.mp (Option.mem_toList.mp hl)
      exact hk.written (h old (List.mem_append_left _ (Option.mem_toList.mpr hc))) _ _
    · exact h link (List.mem_append_right _ hl)

/-- A property of every connection still holds when one is replaced by another with it. -/
theorem replaces {link link' : Link side} (h : ∀ link ∈ s.links, P link)
    (hr : Replaces s link link' s') (hp : P link') : ∀ link ∈ s'.links, P link := by
  intro other ho
  rcases hr.mem_links ho with rfl | ho
  · exact hp
  · exact h other ho

/-- Every event keeps a property of every connection. -/
theorem step (hk : s.LinkKept P) (h : ∀ link ∈ s.links, P link) {e : LinkEvent side}
    (he : s.step text e = some s') : ∀ link ∈ s'.links, P link := by
  have htake : ∀ {link}, s.current = some link →
      ∀ other ∈ links { s with current := some link.take }, P other := by
    intro link hc
    obtain ⟨miner, current, earlier⟩ := s
    cases hc
    exact replaces h .current (hk.take link (h link List.mem_cons_self))
  cases e with
  | call action broken arrives opening =>
    obtain ⟨acted, -, he⟩ := Option.bind_eq_some_iff.mp he
    cases he
    refine hk.after h acted _ ?_
    rintro _ ⟨⟩
    exact hk.accepted opening
  | nextLine broken arrives =>
    obtain ⟨link, hc, he⟩ := Option.bind_eq_some_iff.mp he
    obtain ⟨line, -, he⟩ := Option.bind_eq_some_iff.mp he
    obtain ⟨acted, -, he⟩ := Option.bind_eq_some_iff.mp he
    cases he
    exact hk.after (htake hc) acted _ nofun
  | readError e lost =>
    obtain ⟨acted, -, he⟩ := Option.bind_eq_some_iff.mp he
    cases he
    refine hk.after ?_ acted _ nofun
    cases lost with
    | false => exact h
    | true =>
      cases hc : s.current with
      | none => simpa [links, hc] using h
      | some link => exact htake hc
  | timeout =>
    obtain ⟨acted, -, he⟩ := Option.bind_eq_some_iff.mp he
    cases he
    exact hk.after h acted _ nofun
  | request earlier turn =>
    obtain ⟨link, link', hf, hr⟩ := replaces_of_update he
    exact replaces h hr (hk.request link link' turn hr.mem (h link hr.mem) hf)
  | otherLine earlier line turn =>
    obtain ⟨link, link', hf, hr⟩ := replaces_of_update he
    exact replaces h hr (hk.otherLine link link' line turn (h link hr.mem) hf)

end LinkKept
end Conversation
end SilverPow.Stratum
