import SilverPow.Stratum.Blocks
import SilverPow.Stratum.Connection

/-!
# The fields of a submitted block

`submit_block_to_node`, `src/stratum_pool.rs:587–902`, takes the hash and the address of a
share and writes the block as text, each number as hexadecimal digits at fixed places. The nonce
it writes is not handed to it: it is read from the last eight bytes of the hash, whatever
nonce the miner submitted along with that hash.
-/

namespace SilverPow.Stratum

open SilverPow.Base SilverPow.Work

/-! ### Numbers in a text -/

/-- The number in the characters of a text from a place on. -/
def numberAt (text : String) (start width : Nat) : Option U64 :=
  parseU64 16 (String.ofList ((text.toList.drop start).take width))

/-- The nonce of a block text: behind the version, the previous hash, the Merkle root, the time
and the difficulty bits. -/
def nonceField (block : String) : Option U64 := numberAt block (8 + 128 + 64 + 8 + 8) 16

/-- The reward of a block text: in front of the fees, which are at the end. -/
def rewardField (block : String) : Option U64 := numberAt block (block.toList.length - 32) 16

/-- The nonce that a miner submits, `src/stratum_pool.rs:1369–1379`. -/
def submittedNonce (params : List Value) : Option U64 := parseU64 16 (paramString params 2 "0")

/-- The nonce in the text of a submitted block. -/
def RpcRequest.HasNonce (nonce : Option U64) (request : RpcRequest) : Prop :=
  ∃ block, request.params = [.string block] ∧ nonceField block = nonce

/-- The characters of a field, once what stands around it is known. -/
theorem numberAt_eq {text : String} {front field rest : List Char} {start width : Nat}
    (h : text.toList = front ++ (field ++ rest)) (hs : front.length = start)
    (hw : field.length = width) :
    numberAt text start width = parseU64 16 (String.ofList field) := by
  rw [numberAt, h, List.drop_left' hs, List.take_left' hw]

/-- The documented behaviour of `hex::decode`: two hexadecimal digits for each byte. -/
structure Crates.DecodesDigits (c : Crates) : Prop where
  length_eq {text : String} {bytes : Bytes} :
    c.hexDecode text = .ok bytes → text.toList.length = 2 * bytes.length
  isSome_digitValue {text : String} {bytes : Bytes} :
    c.hexDecode text = .ok bytes → ∀ ch ∈ text.toList, (Hex.digitValue ch).isSome = true

theorem decodesDigits_sampleCrates : sampleCrates.DecodesDigits := by
  have h {text : String} {bytes : Bytes} (hd : sampleCrates.hexDecode text = .ok bytes) :
      Hex.decodeDigits text.toList = some bytes := by
    unfold sampleCrates at hd
    dsimp only at hd
    rw [Hex.base16_decode] at hd
    cases he : Hex.decodeDigits text.toList with
    | none =>
      rw [he] at hd
      cases hd
    | some bytes' =>
      rw [he] at hd
      cases hd
      rfl
  exact ⟨fun hd ↦ (Hex.length_of_decodeDigits (h hd)).1,
    fun hd ↦ (Hex.length_of_decodeDigits (h hd)).2⟩

namespace PoolState

/-- The Merkle root that is written for a hash of 64 bytes has 64 digits. -/
theorem length_merkleRoot {c : Crates} (hc : c.DecodesDigits) {hash : String} {hashBytes : Bytes}
    (hd : c.hexDecode hash = .ok hashBytes) (hl : hashBytes.length = 64) :
    (merkleRoot hash).toList.length = 64 := by
  have hlength := hc.length_eq hd
  have hascii := length_toList_of_ascii fun ch hch ↦
    Hex.toNat_lt_of_isSome_digitValue (hc.isSome_digitValue hd ch hch)
  rw [merkleRoot, if_pos (by omega), String.toList_ofList, List.length_take]
  omega

/-- A word of `w` bits fills the digits that it is written with. -/
theorem length_wordText {w width : Nat} (hw : 4 * width = w) (h0 : 0 < width) (x : BitVec w) :
    (zeroPad width (hexText x.toNat)).toList.length = width := by
  apply length_zeroPad_hexText h0
  rw [show 16 = 2 ^ 4 from rfl, ← pow_mul, hw]
  exact x.isLt

/-- The nonce of a block text is the one that was read from the hash. -/
theorem nonceField_of_isBlockText {c : Crates} (hc : c.DecodesDigits)
    {hash minerAddress block : String} (h : IsBlockText c hash minerAddress block)
    {hashBytes : Bytes} (hd : c.hexDecode hash = .ok hashBytes) :
    nonceField block = some (nonceOfHash hashBytes) := by
  obtain ⟨prevHash, now, bits, hashBytes', hprev, hd', hl, rfl⟩ := h
  cases hd.symm.trans hd'
  let front := (zeroPad 8 (hexText 1)).toList ++ (prevHash.toList ++ ((merkleRoot hash).toList ++
    ((zeroPad 8 (hexText (now.setWidth 32).toNat)).toList ++
      (zeroPad 8 (hexText bits.toNat)).toList)))
  have hfront : front.length = 8 + 128 + 64 + 8 + 8 := by
    have hversion : (zeroPad 8 (hexText 1)).toList.length = 8 :=
      length_zeroPad_hexText (by omega) (by omega)
    have htime := length_wordText (show 4 * 8 = 32 from rfl) (by omega) (now.setWidth 32)
    have hbits := length_wordText (show 4 * 8 = 32 from rfl) (by omega) bits
    simp only [front, List.length_append, hversion, hprev, length_merkleRoot hc hd hl, htime, hbits]
  have htext : (blockHex c prevHash hash now bits (nonceOfHash hashBytes) minerAddress).toList =
      front ++ ((zeroPad 16 (hexText (nonceOfHash hashBytes).toNat)).toList ++
        ((c.hexEncode (minerAddress.toUTF8.toList.map UInt8.toBitVec)).toList ++
          ((zeroPad 16 (hexText blockReward.toNat)).toList ++
            (zeroPad 16 (hexText 0)).toList))) := by
    simp only [blockHex, front, String.toList_append, List.append_assoc]
  rw [nonceField, numberAt_eq htext hfront (length_wordText (by rfl) (by omega) _),
    String.ofList_toList, parseU64_zeroPad_hexText 16 (nonceOfHash hashBytes).isLt,
    BitVec.ofNat_toNat, BitVec.setWidth_eq]

/-- The reward of a block text is the constant, at every height. -/
theorem rewardField_of_isBlockText {c : Crates} {hash minerAddress block : String}
    (h : IsBlockText c hash minerAddress block) : rewardField block = some 5_000_000_000 := by
  obtain ⟨prevHash, now, bits, hashBytes, -, -, -, rfl⟩ := h
  have hreward : (zeroPad 16 (hexText blockReward.toNat)).toList.length = 16 :=
    length_zeroPad_hexText (by omega) (by decide)
  have hfees : (zeroPad 16 (hexText 0)).toList.length = 16 :=
    length_zeroPad_hexText (by omega) (by omega)
  have htext (n : U64) : (blockHex c prevHash hash now bits n minerAddress).toList =
      (zeroPad 8 (hexText 1) ++ prevHash ++ merkleRoot hash ++
        zeroPad 8 (hexText (now.setWidth 32).toNat) ++ zeroPad 8 (hexText bits.toNat) ++
        zeroPad 16 (hexText n.toNat) ++
        c.hexEncode (minerAddress.toUTF8.toList.map UInt8.toBitVec)).toList ++
          ((zeroPad 16 (hexText blockReward.toNat)).toList ++ (zeroPad 16 (hexText 0)).toList) := by
    rw [blockHex, String.toList_append, String.toList_append, List.append_assoc]
  rw [rewardField, numberAt_eq (htext _) _ hreward, String.ofList_toList,
    parseU64_zeroPad_hexText 16 (by decide)]
  · decide
  · rw [htext, List.length_append, List.length_append, hreward, hfees]
    omega

/-! ### The blocks of one message -/

/-- The requests that were sent from one state of the pool to a later one. -/
def newRequests (before after : PoolState) : List RpcRequest :=
  after.httpClient.drop before.httpClient.length

/-- From one state of the pool to another, the requests were sent, and all have a property. -/
def Sends (P : RpcRequest → Prop) (before after : PoolState) : Prop :=
  ∃ requests, after.httpClient = before.httpClient ++ requests ∧ ∀ request ∈ requests, P request

/-- A request that submits a block submits one with the text for a hash. -/
def SubmitsHash (c : Crates) (hash : String) (request : RpcRequest) : Prop :=
  request.method = "submitblock" → ∃ minerAddress block,
    request.params = [.string block] ∧ IsBlockText c hash minerAddress block

section Sends

variable {P : RpcRequest → Prop} {a b d : PoolState}

theorem Sends.refl (h : b.httpClient = a.httpClient) : Sends P a b :=
  ⟨[], by rw [h, List.append_nil], nofun⟩

theorem Sends.trans (h : Sends P a b) (h' : Sends P b d) : Sends P a d := by
  obtain ⟨requests, hb, hP⟩ := h
  obtain ⟨requests', hd, hP'⟩ := h'
  refine ⟨requests ++ requests', by rw [hd, hb, List.append_assoc], ?_⟩
  rw [List.forall_mem_append]
  exact ⟨hP, hP'⟩

theorem sends_post (env : Env) (pool : PoolState) {method : String} {params : List Value}
    (h : P ⟨method, params⟩) : Sends P pool (pool.post env method params).2 :=
  ⟨[⟨method, params⟩], rfl, List.forall_mem_singleton.mpr h⟩

theorem Sends.forall_newRequests (h : Sends P a b) : ∀ request ∈ newRequests a b, P request := by
  obtain ⟨requests, hb, hP⟩ := h
  rw [newRequests, hb, List.drop_left]
  exact hP

/-- What was sent remains sent. -/
theorem Sends.mem_newRequests (h : Sends P b d) {request : RpcRequest}
    (hr : request ∈ newRequests a b) : request ∈ newRequests a d := by
  obtain ⟨requests, hd, -⟩ := h
  rw [newRequests, hd, List.drop_append]
  exact List.mem_append_left _ hr

end Sends

section Submit

variable (c : Crates) (env : Env) (pool : PoolState) (hash : String)

/-- What is asked before a submission submits nothing. -/
theorem sends_asked : Sends (SubmitsHash c hash) pool (pool.asked env) := by
  unfold asked
  dsimp only
  split
  · exact sends_post env pool (by simp [SubmitsHash])
  · exact (sends_post env pool (by simp [SubmitsHash])).trans
      (sends_post env _ (by simp [SubmitsHash]))

theorem sends_syncBlockHeightFromNode :
    Sends (SubmitsHash c hash) pool (pool.syncBlockHeightFromNode c env).2 :=
  ⟨_, httpClient_syncBlockHeightFromNode c env pool, by simp [SubmitsHash]⟩

variable {c hash} {minerAddress : String}

/-- `submit_block_to_node` submits texts for its hash. -/
theorem sends_submitBlockToNode :
    Sends (SubmitsHash c hash) pool (pool.submitBlockToNode c env hash minerAddress).2 := by
  by_cases h : Submittable c hash minerAddress
  · by_cases h0 : reportedDifficulty c pool.config (env.answer pool.httpClient.length) = 0
    · rw [submitBlockToNode_of_zero env pool h h0]
      exact sends_post env (pool.meanwhile env) (by simp [SubmitsHash])
    · obtain ⟨block, htext, hb⟩ := submitBlockToNode_of_ne_zero env pool h h0
      have hrequest : SubmitsHash c hash ⟨"submitblock", [.string block]⟩ :=
        fun _ ↦ ⟨minerAddress, block, rfl, htext⟩
      have hsubmit := (sends_asked c env (pool.meanwhile env) hash).trans
        (sends_post env ((pool.meanwhile env).asked env) hrequest)
      rw [hb]
      dsimp only
      split
      · exact hsubmit.trans (sends_syncBlockHeightFromNode c env _ hash)
      · exact hsubmit
  · rw [submitBlockToNode_of_not_submittable env pool h]
    exact .refl rfl

/-- A block that passes the checks is submitted, unless the difficulty is zero. -/
theorem exists_submitted (h : Submittable c hash minerAddress)
    (h0 : reportedDifficulty c pool.config (env.answer pool.httpClient.length) ≠ 0) :
    ∃ block, IsBlockText c hash minerAddress block ∧ ⟨"submitblock", [.string block]⟩ ∈
      newRequests pool (pool.submitBlockToNode c env hash minerAddress).2 := by
  obtain ⟨block, htext, hb⟩ := submitBlockToNode_of_ne_zero env pool h h0
  obtain ⟨asked, hasked, -⟩ := sends_asked c env (pool.meanwhile env) hash
  have hmem : ⟨"submitblock", [.string block]⟩ ∈ newRequests pool
      (((pool.meanwhile env).asked env).post env "submitblock" [.string block]).2 := by
    rw [newRequests, post, hasked, httpClient_meanwhile, List.append_assoc, List.drop_left]
    exact List.mem_append_right _ (List.mem_singleton_self _)
  refine ⟨block, htext, ?_⟩
  rw [hb]
  dsimp only
  split
  · exact (sends_syncBlockHeightFromNode c env _ hash).mem_newRequests hmem
  · exact hmem

/-- `submit_share` submits texts for its hash. -/
theorem sends_submitShare (minerId : String) (nonce : U64) :
    Sends (SubmitsHash c hash) pool (pool.submitShare c env minerId nonce hash).2 := by
  cases hm : pool.miners.lookup minerId with
  | none =>
    rw [submitShare_of_none c env nonce hash hm]
    exact .refl rfl
  | some miner =>
    cases hv : validateShareDifficulty c hash miner.difficulty with
    | false =>
      rw [submitShare_of_invalid c env nonce hash hm hv]
      exact .refl rfl
    | true =>
      obtain ⟨hashBytes, hd, hl, -, -⟩ := validateShareDifficulty_iff.mp hv
      rw [submitShare_of_valid c env nonce hash hm hv]
      dsimp only
      rw [isBlockCandidate_eq hd hl]
      have hasked : Sends (SubmitsHash c hash) pool
          ((pool.creditShare c minerId miner (env.now pool.httpClient.length)).post env
            "getdifficulty" []).2 :=
        sends_post env (pool.creditShare c minerId miner (env.now pool.httpClient.length))
          (by simp [SubmitsHash])
      split
      · exact hasked.trans (sends_submitBlockToNode env _)
      · exact hasked

/-- The `is_block` flag submits texts for the hash. -/
theorem sends_afterBlockFlag (conn : Connection) (isBlock : Bool) :
    Sends (SubmitsHash c hash) pool (pool.afterBlockFlag c env conn hash isBlock) := by
  unfold afterBlockFlag
  split
  · exact sends_submitBlockToNode env pool
  · exact .refl rfl

/-- The `mining.submit` arm submits texts for the hash of its share. -/
theorem sends_handleSubmit (conn : Connection) (requestId : Value) (params : List Value) :
    Sends (SubmitsHash c (paramString params 3 "")) pool
      (handleSubmit c env pool conn requestId params).pool := by
  unfold handleSubmit
  split
  · dsimp only
    split
    · exact .refl rfl
    · exact (sends_afterBlockFlag env pool conn _).trans (sends_submitShare env _ _ _)
  · exact .refl rfl

end Submit

/-! ### The nonce of a share and of its block -/

variable {c : Crates}

/-- A share that leads to a block submission leads to blocks with its own nonce exactly when
its hash ends in that nonce. -/
theorem submitted_nonce_iff (hc : c.DecodesDigits) (env : Env) (pool : PoolState)
    (conn : Connection) (requestId : Value) (params : List Value)
    (hsent : ∃ request ∈ newRequests pool (handleSubmit c env pool conn requestId params).pool,
      request.method = "submitblock") :
    (∀ request ∈ newRequests pool (handleSubmit c env pool conn requestId params).pool,
        request.method = "submitblock" → request.HasNonce (submittedNonce params)) ↔
      ∃ hashBytes, c.hexDecode (paramString params 3 "") = .ok hashBytes ∧
        submittedNonce params = some (nonceOfHash hashBytes) := by
  have hblocks := (sends_handleSubmit (c := c) env pool conn requestId params).forall_newRequests
  constructor
  · intro hnonce
    obtain ⟨request, hr, hm⟩ := hsent
    obtain ⟨address, block, hp, htext⟩ := hblocks request hr hm
    obtain ⟨block', hp', hn⟩ := hnonce request hr hm
    cases hp.symm.trans hp'
    obtain ⟨-, -, -, hashBytes, -, hd, -⟩ := id htext
    exact ⟨hashBytes, hd, hn.symm.trans (nonceField_of_isBlockText hc htext hd)⟩
  · rintro ⟨hashBytes, hd, hn⟩ request hr hm
    obtain ⟨address, block, hp, htext⟩ := hblocks request hr hm
    exact ⟨block, hp, (nonceField_of_isBlockText hc htext hd).trans hn.symm⟩

/-- A flagged share of an authorized session sends its block, if nothing is wrong with it. -/
theorem exists_submitted_of_flag (env : Env) (pool : PoolState) {conn : Connection}
    {minerId : String} (ha : conn.isAuthorized = true) (hm : conn.minerId = some minerId)
    (requestId : Value) {params : List Value} (hs : ¬Stale pool (paramString params 1 "0"))
    (hflag : paramBool params 4 = true)
    (h : Submittable c (paramString params 3 "") (conn.minerAddress.getD ""))
    (h0 : reportedDifficulty c pool.config (env.answer pool.httpClient.length) ≠ 0) :
    ∃ request ∈ newRequests pool (handleSubmit c env pool conn requestId params).pool,
      request.method = "submitblock" := by
  obtain ⟨block, -, hmem⟩ := exists_submitted env pool h h0
  rw [handleSubmit_of_not_stale c env requestId ha hm hs]
  dsimp only
  rw [hflag, afterBlockFlag, if_pos rfl]
  exact ⟨_, (sends_submitShare env _ _ _).mem_newRequests hmem, rfl⟩

end PoolState

/-! ### The largest hash with two nonces -/

/-- A flagged share with the largest hash and some nonce. -/
def nonceParams (nonce : String) : List Value :=
  [.string sampleAddress, .string "1_1700000000_7", .string nonce, .string largestHash, .bool true]

theorem not_stale_nonceParams (nonce : String) :
    ¬Stale (samplePool 1) (paramString (nonceParams nonce) 1 "0") := by
  change ¬Stale (samplePool 1) "1_1700000000_7"
  decide

theorem exists_submitted_nonceParams (nonce : String) :
    ∃ request ∈ PoolState.newRequests (samplePool 1) (handleSubmit sampleCrates sampleEnv
        (samplePool 1) sampleConnection .null (nonceParams nonce)).pool,
      request.method = "submitblock" :=
  PoolState.exists_submitted_of_flag sampleEnv (samplePool 1)
    (show sampleConnection.isAuthorized = true from rfl) rfl .null (not_stale_nonceParams nonce) rfl
    ⟨_, hexDecode_largestHash, rfl, by decide, by decide, by decide⟩ (by decide)

/-- The largest hash ends in the largest nonce: submitted with it, the block has its nonce. -/
theorem submitted_nonce_iff_largest :
    submittedNonce (nonceParams "ffffffffffffffff") = some (BitVec.allOnes 64) ∧
      ∀ request ∈ PoolState.newRequests (samplePool 1) (handleSubmit sampleCrates sampleEnv
          (samplePool 1) sampleConnection .null (nonceParams "ffffffffffffffff")).pool,
        request.method = "submitblock" →
          request.HasNonce (submittedNonce (nonceParams "ffffffffffffffff")) := by
  refine ⟨by decide, ?_⟩
  apply (PoolState.submitted_nonce_iff decodesDigits_sampleCrates sampleEnv (samplePool 1)
    sampleConnection .null _ (exists_submitted_nonceParams _)).mpr
  exact ⟨_, hexDecode_largestHash, by decide⟩

/-- Submitted with the nonce seven, the share is accepted and the block has another nonce. -/
theorem submitted_nonce_lost :
    submittedNonce (nonceParams "7") = some 7 ∧
      (handleSubmit sampleCrates sampleEnv (samplePool 1) sampleConnection .null
        (nonceParams "7")).share = some (.ok true) ∧
      ∃ request ∈ PoolState.newRequests (samplePool 1) (handleSubmit sampleCrates sampleEnv
          (samplePool 1) sampleConnection .null (nonceParams "7")).pool,
        request.method = "submitblock" ∧ ¬ request.HasNonce (some 7) := by
  refine ⟨by decide, ?_, ?_⟩
  · have hminers := (PoolState.books_eq (PoolState.frame_afterBlockFlag sampleCrates sampleEnv
      (samplePool 1) sampleConnection (paramString (nonceParams "7") 3 "")
      (paramBool (nonceParams "7") 4)).1).1
    have hlookup := congrArg (Finmap.lookup "miner") hminers
    rw [handleSubmit_of_not_stale sampleCrates sampleEnv .null rfl rfl
      (not_stale_nonceParams "7")]
    apply congrArg some
    apply (PoolState.submitShare_eq_ok_true_iff ..).mpr
    exact ⟨_, _, hlookup.trans Finmap.lookup_singleton_eq, hexDecode_largestHash, rfl, by decide,
      Nat.zero_le _, fun _ h ↦ absurd h (show
        ¬sampleCrates.zeroBits 2 ≤ leadingZeroBits (.replicate 64 0xFF) by decide)⟩
  · obtain ⟨request, hr, hm⟩ := exists_submitted_nonceParams "7"
    refine ⟨request, hr, hm, ?_⟩
    obtain ⟨address, block, hp, htext⟩ := (PoolState.sends_handleSubmit sampleEnv (samplePool 1)
      sampleConnection .null (nonceParams "7")).forall_newRequests request hr hm
    rintro ⟨block', hp', hn⟩
    cases hp.symm.trans hp'
    rw [PoolState.nonceField_of_isBlockText decodesDigits_sampleCrates htext
      hexDecode_largestHash] at hn
    revert hn
    decide

end SilverPow.Stratum
