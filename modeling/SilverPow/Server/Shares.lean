import SilverPow.Server.Connections

/-!
# Shares and authorization

The arms of `mining.authorize` and `mining.submit`, `src/stratum.rs:347–395`. The reply to an
authorization stands outside the branch that finds the client, and a submission does not
look at the flag that an authorization sets. So shares count for clients that only
subscribed, and connections without a client are told that all is well.
-/

namespace SilverPow.Server

open SilverPow.Base SilverPow.Stratum

namespace StratumServer

/-- A client is stored and authorized. -/
def AuthorizedIn (clients : Clients) (clientId : String) : Prop :=
  ∃ client, clients.lookup clientId = some client ∧ client.authorized = true

/-- A reply says that a request was granted. -/
def Granted (written : Option Value) : Prop :=
  ∃ reply, written = some reply ∧ reply.get "result" = some (.bool true)

section Gate

variable (config : ServerConfig) (fromJsonLine : String → Except String StratumMessage)
  (s : StratumServer) (e : ServerEvent)

/-- Shares are counted, submissions are granted, and authorizations are granted only for
authorized clients; a subscription starts a new record, whatever the old one counts. -/
structure Gated : Prop where
  counted : ∀ clientId client client', s.clients.lookup clientId = some client →
    (s.step config fromJsonLine e).clients.lookup clientId = some client' →
    client'.sharesAccepted = client.sharesAccepted + 1 →
    (∀ handler read message, Handles config fromJsonLine s e clientId handler read message →
      message.method ≠ "mining.subscribe") → client.authorized = true
  submit : ∀ clientId handler read message,
    Handles config fromJsonLine s e clientId handler read message →
    message.method = "mining.submit" →
    Granted (handleRead config.handler fromJsonLine clientId handler s.clients read).written →
    AuthorizedIn s.clients clientId
  authorize : ∀ clientId handler read message,
    Handles config fromJsonLine s e clientId handler read message →
    message.method = "mining.authorize" →
    Granted (handleRead config.handler fromJsonLine clientId handler s.clients read).written →
    AuthorizedIn (s.step config fromJsonLine e).clients clientId

/-- An authorization that can be answered has both parameters, or repeats an earlier one, and
comes from a client that is stored. A submission with all its parameters comes from an
authorized client; else there is no client and the reply cannot be written. -/
structure InOrder : Prop where
  authorize : ∀ clientId handler read message,
    Handles config fromJsonLine s e clientId handler read message →
    message.method = "mining.authorize" → read.write = .ok () →
    ∃ client, s.clients.lookup clientId = some client ∧
      (2 ≤ message.params.length ∨ client.authorized = true)
  submit : ∀ clientId handler read message,
    Handles config fromJsonLine s e clientId handler read message →
    message.method = "mining.submit" → 5 ≤ message.params.length →
    AuthorizedIn s.clients clientId ∨
      s.clients.lookup clientId = none ∧ read.write ≠ .ok ()

end Gate

section Messages

variable {config : ServerConfig} {fromJsonLine : String → Except String StratumMessage}
  {s : StratumServer} {e : ServerEvent} {clientId : String} {handler : Handler}
  {read : ReadEvent} {message : StratumMessage}

/-- When a reply says that the request was granted. -/
theorem Handles.granted_iff
    (h : Handles config fromJsonLine s e clientId handler read message) :
    Granted (handleRead config.handler fromJsonLine clientId handler s.clients read).written ↔
      message.Answered ∧ read.write = .ok () := by
  obtain ⟨-, hreply, hiff⟩ := (iteration_handleRead config.handler fromJsonLine clientId handler
    s.clients read).of_message h.handled
  rw [← hiff]
  constructor
  · rintro ⟨reply, hw, -⟩
    rw [hw]
    exact Option.some_ne_none _
  · intro hne
    obtain hw | hw := hreply
    · exact ⟨_, hw, get_result_reply _ _ _⟩
    · exact absurd hw hne

theorem ne_subscribe_of_authorize {method : String} (h : method = "mining.authorize") :
    method ≠ "mining.subscribe" := by
  rw [h]
  decide

theorem ne_subscribe_of_submit {method : String} (h : method = "mining.submit") :
    method ≠ "mining.subscribe" := by
  rw [h]
  decide

/-- A gated event is in order. -/
theorem inOrder_of_gated (hg : Gated config fromJsonLine s e) :
    InOrder config fromJsonLine s e := by
  constructor
  · intro k handler read message h ha hw
    obtain ⟨client', hl', hauth⟩ := hg.authorize k handler read message h ha
      (h.granted_iff.mpr ⟨.inl ha, hw⟩)
    rw [h.lookup_step (ne_subscribe_of_authorize ha)] at hl'
    obtain ⟨client, hl, rfl⟩ := Option.map_eq_some_iff.mp hl'
    refine ⟨client, hl, ?_⟩
    by_cases hlen : 2 ≤ message.params.length
    · exact .inl hlen
    · rw [if_neg fun hc ↦ hlen hc.2, if_neg fun hc ↦ absurd (ha.symm.trans hc.1) (by decide)]
        at hauth
      exact .inr hauth
  · intro k handler read message h hm hlen
    have hs := ne_subscribe_of_submit hm
    cases hl : s.clients.lookup k with
    | none =>
      refine .inr ⟨rfl, fun hw ↦ ?_⟩
      obtain ⟨client, hl', -⟩ := hg.submit k handler read message h hm
        (h.granted_iff.mpr ⟨.inr ⟨hm, hlen⟩, hw⟩)
      cases hl.symm.trans hl'
    | some client =>
      refine .inl ⟨client, hl, ?_⟩
      have hl' := h.lookup_step hs
      rw [hl, Option.map_some, if_neg fun hc ↦ absurd (hm.symm.trans hc.1) (by decide),
        if_pos ⟨hm, hlen⟩] at hl'
      apply hg.counted k client _ hl hl' rfl
      intro handler' read' message' h'
      rw [h.unique h']
      exact hs

/-- An event that is in order is gated. -/
theorem gated_of_inOrder (ho : InOrder config fromJsonLine s e) :
    Gated config fromJsonLine s e := by
  constructor
  · intro k client client' hl hl' hcount hnew
    obtain ⟨handler, read, message, h⟩ := handles_of_changed hl' (by
      rw [hl, ne_eq, Option.some_inj]
      rintro rfl
      exact absurd hcount (by simp))
    rw [h.lookup_step (hnew handler read message h), hl, Option.map_some, Option.some_inj] at hl'
    subst hl'
    by_cases hsub : message.method = "mining.submit" ∧ 5 ≤ message.params.length
    · obtain ⟨stored, hs, hauth⟩ | ⟨hn, -⟩ := ho.submit k handler read message h hsub.1 hsub.2
      · cases hs.symm.trans hl
        exact hauth
      · cases hn.symm.trans hl
    · rw [if_neg hsub] at hcount
      split at hcount <;> exact absurd hcount (by simp)
  · intro k handler read message h hm hgranted
    obtain ⟨ha | ⟨-, hlen⟩, hw⟩ := h.granted_iff.mp hgranted
    · exact absurd (hm.symm.trans ha) (by decide)
    · obtain hauth | ⟨-, hne⟩ := ho.submit k handler read message h hm hlen
      · exact hauth
      · exact absurd hw hne
  · intro k handler read message h ha hgranted
    obtain ⟨client, hl, hor⟩ :=
      ho.authorize k handler read message h ha (h.granted_iff.mp hgranted).2
    refine ⟨_, (h.lookup_step (ne_subscribe_of_authorize ha)).trans
      (by rw [hl, Option.map_some]), ?_⟩
    split_ifs with h₁ h₂
    · rfl
    · exact absurd (ha.symm.trans h₂.1) (by decide)
    · exact hor.resolve_left fun hlen ↦ h₁ ⟨ha, hlen⟩

end Messages

/-- Every event of a run is gated, exactly when every event of the run is in order. -/
theorem gated_run_iff (config : ServerConfig)
    (fromJsonLine : String → Except String StratumMessage) (es : List ServerEvent)
    (s : StratumServer) :
    Run (Guarded (Gated config fromJsonLine) (Step config fromJsonLine)) new es s ↔
      Run (Guarded (InOrder config fromJsonLine) (Step config fromJsonLine)) new es s := by
  constructor
  · apply Run.mono
    intro s e s' h
    exact ⟨inOrder_of_gated h.1, h.2⟩
  · apply Run.mono
    intro s e s' h
    exact ⟨gated_of_inOrder h.1, h.2⟩

/-- A line that submits a share. -/
def submitLine : String :=
  "\x7b\"id\":2,\"method\":\"mining.submit\",\"params\":[\"w\",\"1_0\",\"0\",\"0\",\"0\"]\x7d"

/-- What `serde_json` makes of the two lines. -/
def readSubmit (line : String) : Except String StratumMessage :=
  if line = submitLine then
    .ok ⟨some 2, "mining.submit",
      [.string "w", .string "1_0", .string "0", .string "0", .string "0"]⟩
  else readSubscribe line

/-- The share of a client that only subscribed is counted and granted. -/
theorem unauthorized_share_counted : ∃ s client,
    ServerRun defaultConfig readSubmit subscribeEvents s ∧
      (s.step defaultConfig readSubmit
        (.read "client" ⟨.line submitLine, 9, .ok ()⟩)).clients.lookup "client" = some client ∧
      client.authorized = false ∧ client.sharesAccepted = 1 ∧
      ¬Gated defaultConfig readSubmit s (.read "client" ⟨.line submitLine, 9, .ok ()⟩) := by
  refine ⟨_, _, .snoc (.snoc .nil ⟨rfl, rfl⟩) ⟨trivial, rfl⟩, rfl, rfl, rfl, ?_⟩
  intro hg
  obtain ⟨client, hl, hauth⟩ := hg.submit "client" _ _ _ ⟨rfl, rfl, rfl⟩ rfl ⟨_, rfl, rfl⟩
  cases hl
  cases hauth

end StratumServer
end SilverPow.Server
