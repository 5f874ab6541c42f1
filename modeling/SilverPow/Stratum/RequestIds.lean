import SilverPow.Base.Log
import SilverPow.Base.Run
import SilverPow.Stratum.Exchange

/-!
# The identifiers of the client's requests

`src/stratum_client.rs:223–287`, `439–444`, `506–551`: a client sends shares and keepalive
pings, and only the submission of a share reads from the connection. Replies that come after
a timeout stay in the stream, and so do the replies to pings; the next submission skips them
by their identifiers, which are all different until the counter wraps.
-/

namespace SilverPow.Stratum

open SilverPow.Base

/-! ### The calls of a client -/

/-- The interval of the keepalive, fifteen seconds; instants are nanoseconds. -/
def keepaliveInterval : Nat := 15 * 1000000000

/-- A call on the client, with how its request is sent. A keepalive reads the clock first, and
again when its request is sent. -/
inductive ClientCall where
  | submitShare (jobId : String) (nonce : U64) (hash : String) (isBlock : Bool) (sent : Sent)
  | sendKeepalive (now : Nat) (sent : Sent) (sentAt : Nat)

namespace StratumClient

/-- The `mining.ping` message, `src/stratum_client.rs:526–530`. -/
def pingRequest (client : StratumClient) : Value :=
  .object [("id", .number (.posInt client.requestId)), ("method", .string "mining.ping"),
    ("params", .array [])]

/-- `send_keepalive`, `src/stratum_client.rs:506–551`, with the time of the last keepalive. -/
def sendKeepalive (client : StratumClient) (lastKeepalive now : Nat) (sent : Sent)
    (sentAt : Nat) : Except String Unit × StratumClient × Nat :=
  if now - lastKeepalive < keepaliveInterval then (.ok (), client, lastKeepalive)
  else if client.state ≠ .authorized then (.ok (), client, lastKeepalive)
  else
    let next := { client with requestId := client.requestId + 1 }
    match sent with
    | .ok => (.ok (), next, sentAt)
    | .notConnected =>
      (.error "Not connected to pool", { next with state := .disconnected }, lastKeepalive)
    | .broken e => (.error e, { next with state := .disconnected }, lastKeepalive)

end StratumClient

/-- The reads that the loop of a submission takes. -/
def readsTaken (requestId : U64) : List Incoming → Nat
  | [] => 0
  | .value response :: rest =>
    if isPong response then readsTaken requestId rest + 1
    else if (response.get "id").bind Value.asU64 = some requestId then 1
    else readsTaken requestId rest + 1
  | .error _ :: _ => 1
  | .timeout :: _ => 1

/-- A reply that ends the loop is one of the reads that the loop takes, and has the
identifier that the loop waits for. -/
theorem exists_of_awaitReply {requestId : U64} {incoming : List Incoming} {response : Value}
    (h : awaitReply requestId incoming = some (.ok response)) :
    ∃ i, i < readsTaken requestId incoming ∧ incoming[i]? = some (.value response) ∧
      response.get "id" = some (.number (.posInt requestId)) := by
  induction incoming with
  | nil => cases h
  | cons read rest ih =>
    cases read with
    | error e => cases h
    | timeout => cases h
    | value v =>
      rw [awaitReply] at h
      rw [readsTaken]
      by_cases hp : isPong v = true
      · rw [if_pos hp] at h ⊢
        obtain ⟨i, hi, hv, hid⟩ := ih h
        exact ⟨i + 1, Nat.add_lt_add_right hi 1, hv, hid⟩
      · rw [if_neg hp] at h ⊢
        by_cases hm : (v.get "id").bind Value.asU64 = some requestId
        · rw [if_pos hm] at h ⊢
          cases h
          refine ⟨0, Nat.zero_lt_one, rfl, ?_⟩
          obtain ⟨id, hget, hid⟩ := Option.bind_eq_some_iff.mp hm
          rw [hget]
          unfold Value.asU64 at hid
          split at hid
          · cases hid
            rfl
          · cases hid
        · rw [if_neg hm] at h ⊢
          obtain ⟨i, hi, hv, hid⟩ := ih h
          exact ⟨i + 1, Nat.add_lt_add_right hi 1, hv, hid⟩

/-! ### Sequences of calls -/

/-- A client with its requests so far and the number of reads it has taken. -/
structure Session where
  client : StratumClient
  lastKeepalive : Nat
  requests : List Value
  taken : Nat

namespace Session

/-- The request that a call makes. -/
def request (s : Session) : ClientCall → Option Value
  | .submitShare jobId nonce hash isBlock _ =>
    if s.client.state = .authorized then some (s.client.shareRequest jobId nonce hash isBlock)
    else none
  | .sendKeepalive now _ _ =>
    if now - s.lastKeepalive < keepaliveInterval then none
    else if s.client.state = .authorized then some s.client.pingRequest
    else none

/-- The session after a call, where the reads have the given results one after another. -/
def step (reads : List Incoming) (s : Session) (call : ClientCall) : Session :=
  let requests := s.requests ++ (s.request call).toList
  match call with
  | .submitShare _ _ _ _ sent =>
    let incoming := reads.drop s.taken
    { client := (s.client.submitShare sent incoming).2
      lastKeepalive := s.lastKeepalive
      requests
      taken :=
        match s.request call, sent with
        | some _, .ok => s.taken + readsTaken s.client.requestId incoming
        | _, _ => s.taken }
  | .sendKeepalive now sent sentAt =>
    let (_, client, lastKeepalive) := s.client.sendKeepalive s.lastKeepalive now sent sentAt
    { client, lastKeepalive, requests, taken := s.taken }

/-- A session before its first call. -/
def start (client : StratumClient) (lastKeepalive : Nat) : Session := ⟨client, lastKeepalive, [], 0⟩

/-- The sessions that a sequence of calls leads to. -/
abbrev SessionCalls (reads : List Incoming) (client : StratumClient) (lastKeepalive : Nat) :
    List ClientCall → Session → Prop :=
  Run (fun s call s' ↦ s' = s.step reads call) (start client lastKeepalive)

/-! ### Identifiers -/

variable {reads : List Incoming}

@[simp] theorem requests_step (s : Session) (call : ClientCall) :
    (s.step reads call).requests = s.requests ++ (s.request call).toList := by
  cases call <;> rfl

/-- A request carries the counter. -/
theorem get_id_of_request {s : Session} {call : ClientCall} {request : Value}
    (h : s.request call = some request) :
    request.get "id" = some (.number (.posInt s.client.requestId)) := by
  cases call with
  | submitShare jobId nonce hash isBlock sent =>
    rw [Session.request] at h
    split at h
    · cases h
      rfl
    · cases h
  | sendKeepalive now sent sentAt =>
    rw [Session.request] at h
    split_ifs at h
    cases h
    rfl

/-- A call that makes a request advances the counter, and no other. -/
theorem requestId_step (s : Session) (call : ClientCall) :
    (s.step reads call).client.requestId =
      s.client.requestId + BitVec.ofNat 64 (s.request call).toList.length := by
  cases call with
  | submitShare jobId nonce hash isBlock sent =>
    by_cases hs : s.client.state = .authorized
    · simp only [step, StratumClient.submitShare, Session.request, hs]
      cases sent <;> rfl
    · simp [step, StratumClient.submitShare, Session.request, hs]
  | sendKeepalive now sent sentAt =>
    by_cases hk : now - s.lastKeepalive < keepaliveInterval
    · simp [step, StratumClient.sendKeepalive, Session.request, hk]
    · by_cases hs : s.client.state = .authorized
      · simp only [step, StratumClient.sendKeepalive, Session.request, hs, hk]
        cases sent <;> rfl
      · simp [step, StratumClient.sendKeepalive, Session.request, hs, hk]

/-- The requests are numbered one after another. -/
structure Numbered (first : U64) (s : Session) : Prop where
  counter : s.client.requestId = first + BitVec.ofNat 64 s.requests.length
  ids : ∀ i (request : Value), s.requests[i]? = some request →
    request.get "id" = some (.number (.posInt (first + BitVec.ofNat 64 i)))

/-- Calls keep the numbering. -/
theorem numbered_step {first : U64} {s : Session} (h : Numbered first s) (call : ClientCall) :
    Numbered first (s.step reads call) := by
  constructor
  · rw [requestId_step, requests_step, h.counter, List.length_append, BitVec.ofNat_add,
      BitVec.add_assoc]
  · intro i request hi
    rw [requests_step] at hi
    by_cases hlt : i < s.requests.length
    · rw [List.getElem?_append_left hlt] at hi
      exact h.ids i request hi
    · rw [List.getElem?_append_right (Nat.le_of_not_lt hlt)] at hi
      cases hr : s.request call with
      | none =>
        rw [hr] at hi
        cases hi
      | some new =>
        rw [hr, Option.toList_some, List.getElem?_singleton] at hi
        split at hi
        · next hz =>
          cases hi
          have hi : i = s.requests.length := by omega
          rw [get_id_of_request hr, h.counter, hi]
        · cases hi

section Runs

variable {client : StratumClient} {lastKeepalive : Nat} {calls : List ClientCall} {s : Session}

/-- The requests of a run are numbered from the client's counter on. -/
theorem numbered_of_run (h : SessionCalls reads client lastKeepalive calls s) :
    Numbered client.requestId s := by
  apply h.invariant
  · constructor
    · exact (add_zero client.requestId).symm
    · intro i request hi
      cases hi
  · rintro s call _ hs rfl
    exact numbered_step hs call

/-- Each call makes at most one request. -/
theorem length_requests_le (h : SessionCalls reads client lastKeepalive calls s) :
    s.requests.length ≤ calls.length := by
  apply h.historyInvariant fun calls s ↦ s.requests.length ≤ calls.length
  · exact Nat.le_refl _
  · rintro calls s call _ hs rfl
    rw [requests_step, List.length_append, List.length_append]
    exact Nat.add_le_add hs (Option.length_toList_le)

/-- Later calls add to the requests. -/
theorem requests_isPrefix_foldl (reads : List Incoming) (s : Session) (calls : List ClientCall) :
    s.requests <+: (calls.foldl (step reads) s).requests := by
  induction calls generalizing s with
  | nil => exact List.prefix_rfl
  | cons call calls ih =>
    apply List.IsPrefix.trans _ (ih (s.step reads call))
    rw [requests_step]
    exact List.prefix_append _ _

/-- A request has the place in the whole run that it was given when it was made. -/
theorem getElem?_requests_of_run {before after : List ClientCall} {call : ClientCall}
    {s' : Session} (h : SessionCalls reads client lastKeepalive (before ++ call :: after) s)
    (hr : SessionCalls reads client lastKeepalive before s') {request : Value}
    (hrequest : s'.request call = some request) :
    s.requests[s'.requests.length]? = some request := by
  have hs := h.eq_foldl fun _ _ _ ↦ id
  rw [List.foldl_append, List.foldl_cons, ← hr.eq_foldl fun _ _ _ ↦ id] at hs
  obtain ⟨rest, hrest⟩ := requests_isPrefix_foldl reads (s'.step reads call) after
  rw [hs, ← hrest, requests_step, hrequest, List.append_assoc, Option.toList_some,
    List.getElem?_append_right (Nat.le_refl _), Nat.sub_self]
  rfl

/-- Of fewer requests than there are identifiers, two with one identifier are the same. -/
theorem Numbered.index_eq {first : U64} (h : Numbered first s)
    (hlt : s.requests.length < 2 ^ 64) {i j : Nat} {request request' : Value}
    (hi : s.requests[i]? = some request) (hj : s.requests[j]? = some request')
    (hid : request.get "id" = request'.get "id") : i = j := by
  rw [h.ids i request hi, h.ids j request' hj] at hid
  simp only [Option.some_inj, Value.number.injEq, Number.posInt.injEq, add_right_inj] at hid
  have hilt := (List.getElem?_eq_some_iff.mp hi).1
  have hjlt := (List.getElem?_eq_some_iff.mp hj).1
  have hnat := congrArg BitVec.toNat hid
  rwa [BitVec.toNat_ofNat, BitVec.toNat_ofNat, Nat.mod_eq_of_lt (hilt.trans hlt),
    Nat.mod_eq_of_lt (hjlt.trans hlt)] at hnat

/-! ### Replies -/

/-- Each line of the stream is an answer to one of the requests, and then has its identifier,
or it has the identifier of none. `origin` tells the number of the request answered. -/
def Answers (reads : List Incoming) (origin : Nat → Option Nat) (requests : List Value) : Prop :=
  ∀ p response, reads[p]? = some (.value response) →
    match origin p with
    | some k => ∃ request, requests[k]? = some request ∧ response.get "id" = request.get "id"
    | none => ∀ request ∈ requests, response.get "id" ≠ request.get "id"

/-- A submission that returns a verdict has read it, during the call, in the answer to its own
request. -/
def RepliedBy (reads : List Incoming) (origin : Nat → Option Nat) (s : Session)
    (call : ClientCall) : Prop :=
  ∀ jobId nonce hash isBlock sent v, call = .submitShare jobId nonce hash isBlock sent →
    (s.client.submitShare sent (reads.drop s.taken)).1 = some (.ok v) →
    ∃ p response, s.taken ≤ p ∧ p < (s.step reads call).taken ∧
      reads[p]? = some (.value response) ∧ origin p = some s.requests.length ∧
      v = decodeShareReply response

/-- A submission that returns a verdict has made a request, and its loop has ended with the
reply that the verdict is read from. -/
theorem exists_of_submitShare {s : Session} {sent : Sent} {v : Bool} (jobId : String)
    (nonce : U64) (hash : String) (isBlock : Bool)
    (h : (s.client.submitShare sent (reads.drop s.taken)).1 = some (.ok v)) :
    ∃ response, awaitReply s.client.requestId (reads.drop s.taken) = some (.ok response) ∧
      v = decodeShareReply response ∧
      s.request (.submitShare jobId nonce hash isBlock sent) =
        some (s.client.shareRequest jobId nonce hash isBlock) ∧
      (s.step reads (.submitShare jobId nonce hash isBlock sent)).taken =
        s.taken + readsTaken s.client.requestId (reads.drop s.taken) := by
  by_cases hs : s.client.state = .authorized
  · have hr : s.request (.submitShare jobId nonce hash isBlock sent) =
        some (s.client.shareRequest jobId nonce hash isBlock) := if_pos hs
    simp only [StratumClient.submitShare, hs] at h
    cases sent with
    | ok =>
      obtain ⟨result, hawait, hresult⟩ := Option.map_eq_some_iff.mp h
      cases result with
      | error e => cases hresult
      | ok response =>
        cases hresult
        refine ⟨response, hawait, rfl, hr, ?_⟩
        simp only [step, hr]
    | notConnected => cases h
    | broken e => cases h
  · simp [StratumClient.submitShare, hs] at h

/-- In a run of fewer calls than there are identifiers, every submission that returns a
verdict has read it in the answer to its own request. -/
theorem replies_attributed (h : SessionCalls reads client lastKeepalive calls s)
    (hlen : calls.length < 2 ^ 64) {origin : Nat → Option Nat}
    (ha : Answers reads origin s.requests) :
    Log.Each (fun before call ↦ ∀ s', SessionCalls reads client lastKeepalive before s' →
      RepliedBy reads origin s' call) calls := by
  rintro before call after rfl s' hr jobId nonce hash isBlock sent v rfl hv
  obtain ⟨response, hawait, rfl, hrequest, htaken⟩ :=
    exists_of_submitShare jobId nonce hash isBlock hv
  obtain ⟨i, hi, hread, hid⟩ := exists_of_awaitReply hawait
  rw [List.getElem?_drop] at hread
  have hown := getElem?_requests_of_run h hr hrequest
  refine ⟨s'.taken + i, response, Nat.le_add_right _ _, ?_, hread, ?_, rfl⟩
  · rw [htaken]
    omega
  · have hanswer := ha _ _ hread
    split at hanswer
    · next k horigin =>
      obtain ⟨request, hk, hsame⟩ := hanswer
      have hids := hsame.symm.trans (hid.trans (get_id_of_request hrequest).symm)
      rw [horigin, (numbered_of_run h).index_eq ((length_requests_le h).trans_lt hlen) hk hown hids]
    · next horigin =>
      refine absurd ?_ (hanswer _ (List.mem_of_getElem? hown))
      rw [hid, get_id_of_request hrequest]

end Runs

/-- A submission that times out, and another one. -/
def twoSubmissions : List ClientCall :=
  [.submitShare "1_0" 7 "00" false .ok, .submitShare "1_0" 8 "01" false .ok]

/-- The timeout, the late reply to the first submission, a notification, and the reply to the
second submission. -/
def lateReplies : List Incoming :=
  [.timeout, .value (reply (.number (.posInt 3)) (.bool false) .null),
    .value (.object [("method", .string "mining.notify")]),
    .value (reply (.number (.posInt 4)) (.bool true) .null)]

/-- Which submissions the lines answer. -/
def lateOrigin : Nat → Option Nat
  | 1 => some 0
  | 3 => some 1
  | _ => none

/-- An authorized client. -/
def authorizedClient : StratumClient := ⟨"SLVRa", .authorized, 3⟩

/-- The late reply is not taken for the reply to the second submission. -/
theorem replies_attributed_late :
    Log.Each (fun before call ↦ ∀ s, SessionCalls lateReplies authorizedClient 0 before s →
      RepliedBy lateReplies lateOrigin s call) twoSubmissions := by
  apply replies_attributed (Run.foldl _ _ _) (by decide)
  rintro (_ | _ | _ | _ | p) response h
  · cases h
  · cases h
    exact ⟨_, rfl, rfl⟩
  · cases h
    intro request hrequest
    obtain rfl | hrequest := List.mem_cons.mp hrequest
    · exact fun h ↦ by cases h
    · cases List.mem_singleton.mp hrequest
      exact fun h ↦ by cases h
  · cases h
    exact ⟨_, rfl, rfl⟩
  · cases h

end Session
end SilverPow.Stratum
