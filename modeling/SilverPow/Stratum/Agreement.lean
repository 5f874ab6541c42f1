import SilverPow.Stratum.Exchange

/-!
# Client and pool on a share

The pool answers a rejected share and a failed submission with a null result and an error
text, and the client reads a null result as acceptance without looking at the error. So the
client reports every share as accepted that is not stale, and both sides agree exactly on
the stale shares and the accepted ones.
-/

namespace SilverPow.Stratum

open SilverPow.Base SilverPow.Work

/-! ### What the client reads -/

/-- The client skips a line: a keepalive answer, or one that does not carry its request's
identifier. -/
def Skipped (requestId : U64) (line : Value) : Prop :=
  isPong line = true ∨ (line.get "id").bind Value.asU64 ≠ some requestId

/-- Lines that are skipped do not change what the client reads. -/
theorem awaitReply_append {requestId : U64} {lines : List Value} (rest : List Incoming)
    (h : ∀ line ∈ lines, Skipped requestId line) :
    awaitReply requestId (lines.map .value ++ rest) = awaitReply requestId rest := by
  induction lines with
  | nil => rfl
  | cons line lines ih =>
    rw [List.forall_mem_cons] at h
    rw [List.map_cons, List.cons_append, awaitReply, ih h.2]
    rcases h.1 with hpong | hid
    · rw [if_pos hpong]
    · rw [if_neg hid, ite_self]

/-- A reply with the identifier of the request is read. -/
theorem awaitReply_reply (requestId : U64) (result error : Value) (rest : List Incoming) :
    awaitReply requestId (.value (reply (.number (.posInt requestId)) result error) :: rest) =
      some (.ok (reply (.number (.posInt requestId)) result error)) := by
  simp [awaitReply, isPong, Value.asU64]

/-- Only a reply whose result is the flag `false` is read as a rejection. -/
theorem decodeShareReply_reply (requestId result error : Value) :
    decodeShareReply (reply requestId result error) = true ↔ result ≠ .bool false := by
  cases result with
  | bool b => cases b <;> simp [decodeShareReply]
  | _ => simp [decodeShareReply]

/-- Every share that was submitted to the pool is read as accepted, whatever became of it. -/
theorem decodeShareReply_shareReply (requestId : Value) (result : Except String Bool) :
    decodeShareReply (shareReply requestId result) = true := by
  cases result with
  | error e => exact (decodeShareReply_reply ..).mpr (nomatch ·)
  | ok accepted => cases accepted <;> exact (decodeShareReply_reply ..).mpr (nomatch ·)

/-! ### What the pool does with the client's message -/

section

variable (c : Crates) (env : Env) {pool : PoolState} {conn : Connection} (client : StratumClient)
  {minerId jobId : String} (nonce : U64) (hash : String) (isBlock : Bool)

/-- The client's message reaches the `mining.submit` arm with the fields that it was built
from. -/
theorem handleSubmitRequest_shareRequest :
    handleSubmitRequest c env pool conn (client.shareRequest jobId nonce hash isBlock) =
      handleSubmit c env pool conn (.number (.posInt client.requestId))
        [.string client.minerAddress, .string jobId, .string (hexText nonce.toNat), .string hash,
          .bool isBlock] := by
  simp [handleSubmitRequest, StratumClient.shareRequest, Value.get, List.lookup_cons]

/-- A stale share is answered with the flag `false` and is not submitted. -/
theorem handleSubmitRequest_of_stale (ha : conn.isAuthorized = true)
    (hm : conn.minerId = some minerId) (hs : Stale pool jobId) :
    ∃ error, handleSubmitRequest c env pool conn
        (client.shareRequest jobId nonce hash isBlock) =
      ⟨reply (.number (.posInt client.requestId)) (.bool false) error, none, pool, false⟩ := by
  rw [handleSubmitRequest_shareRequest]
  exact handleSubmit_of_stale c env _ ha hm hs

/-- A share that is not stale is submitted, after the block when the flag asks for it. -/
theorem handleSubmitRequest_of_not_stale (ha : conn.isAuthorized = true)
    (hm : conn.minerId = some minerId) (hs : ¬Stale pool jobId) :
    ∃ nonce',
      let submitted :=
        (pool.afterBlockFlag c env conn hash isBlock).submitShare c env minerId nonce' hash
      handleSubmitRequest c env pool conn (client.shareRequest jobId nonce hash isBlock) =
        ⟨shareReply (.number (.posInt client.requestId)) submitted.1, some submitted.1,
          submitted.2, pool.spawnsSync c env conn hash isBlock⟩ := by
  refine ⟨(parseU64 16 (hexText nonce.toNat)).getD 0, ?_⟩
  rw [handleSubmitRequest_shareRequest]
  exact handleSubmit_of_not_stale c env _ ha hm hs

/-- Client and pool agree on a share: when the reply reaches the client, after lines that it
skips, the client reads acceptance exactly when `PoolState::submit_share` accepted the
share. -/
def ShareAgreement (c : Crates) (env : Env) (pool : PoolState) (conn : Connection)
    (client : StratumClient) (jobId : String) (nonce : U64) (hash : String)
    (isBlock : Bool) : Prop :=
  ∀ (skipped : List Value) (rest : List Incoming),
    (∀ line ∈ skipped, Skipped client.requestId line) →
    let handled :=
      handleSubmitRequest c env pool conn (client.shareRequest jobId nonce hash isBlock)
    (client.submitShare .ok (skipped.map .value ++ .value handled.reply :: rest)).1 =
      some (.ok true) ↔ handled.share = some (.ok true)

variable {c env client nonce hash isBlock}

/-- What an authorized client returns is read off the reply to its request. -/
theorem submitShare_reply (hc : client.state = .authorized) {skipped : List Value}
    (rest : List Incoming) (h : ∀ line ∈ skipped, Skipped client.requestId line)
    (result error : Value) :
    let answer := reply (.number (.posInt client.requestId)) result error
    (client.submitShare .ok (skipped.map .value ++ .value answer :: rest)).1 =
      some (.ok (decodeShareReply answer)) := by
  intro answer
  unfold StratumClient.submitShare
  rw [if_neg (not_not.mpr hc)]
  dsimp only
  rw [awaitReply_append _ h, awaitReply_reply]
  rfl

/-- An authorized client reads every reply to a submitted share as acceptance. -/
theorem submitShare_shareReply (hc : client.state = .authorized) {skipped : List Value}
    (rest : List Incoming) (h : ∀ line ∈ skipped, Skipped client.requestId line)
    (result : Except String Bool) :
    let answer := shareReply (.number (.posInt client.requestId)) result
    (client.submitShare .ok (skipped.map .value ++ .value answer :: rest)).1 =
      some (.ok true) := by
  rw [← decodeShareReply_shareReply (.number (.posInt client.requestId)) result]
  cases result with
  | error e => exact submitShare_reply hc rest h ..
  | ok accepted => cases accepted <;> exact submitShare_reply hc rest h ..

/-- On a stale share, both sides say that it was not accepted. -/
theorem shareAgreement_of_stale (hc : client.state = .authorized) (ha : conn.isAuthorized = true)
    (hm : conn.minerId = some minerId) (hs : Stale pool jobId) :
    ShareAgreement c env pool conn client jobId nonce hash isBlock := by
  obtain ⟨error, hh⟩ := handleSubmitRequest_of_stale c env client nonce hash isBlock ha hm hs
  intro skipped rest h
  rw [hh]
  dsimp only
  rw [submitShare_reply hc rest h]
  constructor
  · intro hread
    have haccept := Except.ok.inj (Option.some.inj hread)
    exact absurd rfl ((decodeShareReply_reply ..).mp haccept)
  · exact (nomatch ·)

/-- On a share that is not stale, both sides agree exactly when the pool accepts it. -/
theorem shareAgreement_iff_of_not_stale (hc : client.state = .authorized)
    (ha : conn.isAuthorized = true) (hm : conn.minerId = some minerId) (hs : ¬Stale pool jobId) :
    ShareAgreement c env pool conn client jobId nonce hash isBlock ↔
      (pool.afterBlockFlag c env conn hash isBlock).ShareAccepted c env minerId hash := by
  obtain ⟨nonce', hh⟩ :=
    handleSubmitRequest_of_not_stale c env client nonce hash isBlock ha hm hs
  unfold ShareAgreement
  rw [hh, ← PoolState.submitShare_eq_ok_true_iff c env _ minerId nonce' hash]
  constructor
  · intro h
    exact Option.some.inj ((h [] [] (List.forall_mem_nil _)).mp
      (submitShare_shareReply hc [] (List.forall_mem_nil _) _))
  · intro haccept skipped rest h
    dsimp only
    rw [submitShare_shareReply hc rest h, haccept]

/-- In an authorized session, client and pool agree exactly on the stale shares, which are
not submitted, and on those that the pool accepts. -/
theorem shareAgreement_iff (hc : client.state = .authorized) (ha : conn.isAuthorized = true)
    (hm : conn.minerId = some minerId) :
    ShareAgreement c env pool conn client jobId nonce hash isBlock ↔
      Stale pool jobId ∨
        (pool.afterBlockFlag c env conn hash isBlock).ShareAccepted c env minerId hash := by
  by_cases hs : Stale pool jobId
  · exact iff_of_true (shareAgreement_of_stale hc ha hm hs) (.inl hs)
  · rw [shareAgreement_iff_of_not_stale hc ha hm hs, or_iff_right hs]

end

/-! ### Two shares of one session -/

/-- Hexadecimal text as usual; the hashrate is one. -/
def sampleCrates : Crates where
  hexDecode s := (Hex.base16.decode s).elim (.error "Odd number of digits") .ok
  hexEncode := Hex.base16.encode
  sha512 _ := ⟨List.replicate 64 0, rfl⟩
  valueText _ := "null"
  canonicalReason _ := none
  castU64 bits := bits
  log2 difficulty := .ofNat 32 (log2Floor difficulty)
  difficultyBits _ := 0x1d00ffff
  hashrate _ _ _ := 0x3FF0000000000000

/-- A node that reports difficulty two. -/
def sampleEnv : Env where
  answer _ := .response 200 (.ok (.object [("result", .number (.posInt 2))]))
  others _ work := work
  now _ := 1700000000
  uuid _ := "00000000-0000-4000-8000-000000000001"

/-- The address of the session and of the client. -/
def sampleAddress : String :=
  "SLVR67rpwLCuS5DGA8KGZXKsVQ7dnPb9goRLoKfgGbLfQg9WoLUgNY77E2jT11fem3coV9nAkguBACzrU1iyZM4B8roQ"

/-- A pool at height one with one session of the given difficulty. -/
def samplePool (difficulty : U64) : PoolState where
  miners := Finmap.singleton "miner" {
    minerId := "miner"
    address := sampleAddress
    difficulty
    shares := 0
    validShares := 0
    invalidShares := 0
    lastShareTime := 1700000000
    connectedTime := 1700000000
    hashrate := 0 }
  currentWork := ⟨"work", "", "", 1, 1700000000⟩
  config := ⟨"http://localhost:8332", 1000⟩
  httpClient := []
  totalShares := 0
  totalValidShares := 0

/-- The connection of the session. -/
def sampleConnection : Connection := ⟨some "miner", some sampleAddress, true⟩

/-- An authorized client. -/
def sampleClient : StratumClient := ⟨sampleAddress, .authorized, 3⟩

/-- The hash with all bits set, in hexadecimal text. -/
def largestHash : String := String.ofList (List.replicate 128 'f')

/-- The hash with all bits set decodes to its bytes. -/
theorem hexDecode_largestHash :
    sampleCrates.hexDecode largestHash = .ok (List.replicate 64 0xFF) := by
  have h : Hex.decodeDigits (List.replicate 128 'f') = some (List.replicate 64 0xFF) :=
    Hex.decodeDigits_replicate (show Hex.digitValue 'f' = some 15 from rfl) 64
  unfold sampleCrates largestHash
  dsimp only
  rw [Hex.base16_decode, String.toList_ofList, h, Option.elim]

/-- At session difficulty one, both sides hold for the largest hash: the share is accepted. -/
theorem shareAgreement_iff_accepted :
    ShareAgreement sampleCrates sampleEnv (samplePool 1) sampleConnection sampleClient
      "1_1700000000_7" 7 largestHash false :=
  (shareAgreement_iff rfl rfl rfl).mpr <| .inr ⟨_, _, rfl, hexDecode_largestHash, rfl,
    by decide, Nat.zero_le _, fun _ h ↦ absurd h (by decide)⟩

/-- At session difficulty 1000, the pool rejects the largest hash and the client reads
acceptance. -/
theorem rejected_share_read_as_accepted :
    ¬ShareAgreement sampleCrates sampleEnv (samplePool 1000) sampleConnection sampleClient
      "1_1700000000_7" 7 largestHash false := by
  rw [shareAgreement_iff_of_not_stale rfl rfl rfl (by decide)]
  rintro ⟨miner, hashBytes, hm, hd, -, -, hz, -⟩
  rw [← Option.some.inj (Finmap.lookup_singleton_eq.symm.trans hm),
    ← Except.ok.inj (hexDecode_largestHash.symm.trans hd)] at hz
  exact absurd hz (by decide)

end SilverPow.Stratum
