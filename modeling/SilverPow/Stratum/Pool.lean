import SilverPow.Base.Bytes
import SilverPow.Ledger.Validation
import SilverPow.Stratum.Node

/-!
# Shares and blocks of the pool

`src/stratum_pool.rs:373–902`: a share is checked against the difficulty of its session
and, when it also meets the network difficulty, is submitted to the node as a block. The
sessions stay locked from the first line of `submit_share` to its last.
-/

namespace SilverPow.Stratum

open SilverPow.Base SilverPow.Work

/-- `compute_sha512`, `src/stratum_pool.rs:16–21`. -/
def Crates.computeSha512 (c : Crates) (data : String) : String :=
  String.ofList ((c.sha512 (data.toUTF8.toList.map UInt8.toBitVec)).bytes.flatMap Hex.encodeByte)

/-- The zero bits that a difficulty asks for: the logarithm, or all of a hash. -/
def Crates.zeroBits (c : Crates) (difficulty : U64) : Nat := min (c.log2 difficulty).toNat 512

/-- The float logarithm of a difficulty is cast to the exact one. -/
def Crates.LogFloor (c : Crates) (difficulty : U64) : Prop :=
  (c.log2 difficulty).toNat = log2Floor difficulty

theorem Crates.LogFloor.zeroBits_eq {c : Crates} {difficulty : U64} (h : c.LogFloor difficulty) :
    c.zeroBits difficulty = log2Floor difficulty := by
  rw [Crates.zeroBits, h, Nat.min_eq_left]
  exact ((log2Floor_lt difficulty).trans (by omega)).le

namespace PoolState

/-- `validate_share_difficulty`, `src/stratum_pool.rs:432–505`. -/
def validateShareDifficulty (c : Crates) (hash : String) (difficulty : U64) : Bool :=
  match c.hexDecode hash with
  | .ok hashBytes =>
    if hashBytes.length ≠ 64 then false
    else if difficulty = 0 then false
    else sliceLe hashBytes (leadingZeroTarget (c.log2 difficulty).toNat)
  | .error _ => false

/-- `is_block_candidate`, `src/stratum_pool.rs:510–584`. -/
def isBlockCandidate (c : Crates) (env : Env) (pool : PoolState) (hash : String) :
    Bool × PoolState :=
  match c.hexDecode hash with
  | .error _ => (false, pool)
  | .ok hashBytes =>
    if hashBytes.length ≠ 64 then (false, pool)
    else
      let (difficulty, pool) := pool.networkDifficulty c env
      if difficulty = 0 then (false, pool)
      else (sliceLe hashBytes (leadingZeroTarget (c.log2 difficulty).toNat), pool)

/-- The nonce that `submit_block_to_node` reads from a hash: its last eight bytes,
`src/stratum_pool.rs:608–618`. -/
def nonceOfHash (hashBytes : Bytes) : U64 :=
  BitVec.ofNat 64 (leNat (hashBytes.drop (hashBytes.length - 8)))

/-- `difficulty_bits`, `src/stratum_pool.rs:649–688`. -/
def difficultyBits (c : Crates) (difficulty : U64) : U32 :=
  if difficulty = 0 then 0 else if difficulty = 1 then 0x1d00ffff else c.difficultyBits difficulty

/-- `BLOCK_REWARD_SLVR` in MIST, `src/stratum_pool.rs:692–693`. -/
def blockReward : U128 := 50 * Ledger.mistPerSlvr.setWidth 128

/-- The merkle root of the block text: the start of the hash, `src/stratum_pool.rs:724–728`.
A hash that decodes is ASCII, so its bytes are its characters. -/
def merkleRoot (hash : String) : String :=
  if 64 ≤ hash.utf8ByteSize then String.ofList (hash.toList.take 64) else zeroPad 64 hash

/-- The text of the submitted block, `src/stratum_pool.rs:699–751`. -/
def blockHex (c : Crates) (prevHash hash : String) (now : U64) (difficultyBits : U32)
    (nonce : U64) (minerAddress : String) : String :=
  zeroPad 8 (hexText 1) ++ prevHash ++ merkleRoot hash ++
    zeroPad 8 (hexText (now.setWidth 32).toNat) ++ zeroPad 8 (hexText difficultyBits.toNat) ++
    zeroPad 16 (hexText nonce.toNat) ++
    c.hexEncode (minerAddress.toUTF8.toList.map UInt8.toBitVec) ++
    zeroPad 16 (hexText blockReward.toNat) ++ zeroPad 16 (hexText 0)

/-- What `submit_block_to_node` makes of the answer to `submitblock`,
`src/stratum_pool.rs:769–901`. Every JSON response without an error is a success, whatever
its result. -/
def submissionResult (c : Crates) (pool : PoolState) : NodeAnswer → Except String Unit
  | .response status body =>
    let reason := (c.canonicalReason status).getD "Unknown"
    if ¬(200 ≤ status ∧ status < 300) then .error s!"HTTP error from node: {status} {reason}"
    else match body with
      | .ok json =>
        match (json.get "error").filter (!·.isNull) with
        | some error =>
          let code := ((error.get "code").bind Value.asI64).getD (-1)
          let message := ((error.get "message").bind Value.asStr).getD "Unknown error"
          .error s!"Node rejected block (code {code}): {message}"
        | none => .ok ()
      | .error e =>
        .error s!"Failed to parse node response: {e} (response body may not be JSON)"
  | .failed e =>
    .error (s!"RPC request to node failed: {e} " ++
      s!"(check if node is running at {pool.config.nodeRpcUrl})")
  | .timeout =>
    .error (s!"RPC request timeout (30 seconds) - node at {pool.config.nodeRpcUrl} " ++
      "is not responding")

/-- `submit_block_to_node`, `src/stratum_pool.rs:587–902`. A success synchronizes the block
height before it returns. -/
def submitBlockToNode (c : Crates) (env : Env) (pool : PoolState) (hash minerAddress : String) :
    Except String Unit × PoolState :=
  match c.hexDecode hash with
  | .error e => (.error s!"Invalid hash format: {hash} (error: {e})", pool)
  | .ok hashBytes =>
    if hashBytes.length ≠ 64 then
      (.error s!"Invalid hash length: expected 64 bytes, got {hashBytes.length}", pool)
    else if minerAddress.isEmpty ∨ 100 < minerAddress.utf8ByteSize then
      (.error (s!"Invalid miner address: length must be 1-100 characters, got " ++
        s!"{minerAddress.utf8ByteSize}"), pool)
    else if nonceOfHash hashBytes = 0 then (.error "Invalid nonce: cannot be zero", pool)
    else
      let pool := pool.meanwhile env
      let blockHeight := pool.currentWork.height
      let (difficulty, pool) := pool.networkDifficulty c env
      if difficulty = 0 then (.error "Network difficulty is zero, cannot submit block", pool)
      else
        let (previous, pool) := pool.getPreviousBlockHash c env blockHeight
        let prevHash := previous.toOption.getD
          (c.computeSha512 s!"block_height_{(blockHeight - 1).toNat}")
        let block := blockHex c prevHash hash (env.now pool.httpClient.length)
          (difficultyBits c difficulty) (nonceOfHash hashBytes) minerAddress
        let (answer, pool) := pool.post env "submitblock" [.string block]
        match submissionResult c pool answer with
        | .error e => (.error e, pool)
        | .ok () => (.ok (), (pool.syncBlockHeightFromNode c env).2)

/-- A valid share of a session, `src/stratum_pool.rs:392–405`. -/
def creditShare (c : Crates) (pool : PoolState) (minerId : String) (miner : MinerSession)
    (now : U64) : PoolState :=
  let validShares := miner.validShares + 1
  let elapsed := Word.larger (now - miner.connectedTime) 1
  { pool with
    miners := pool.miners.insert minerId { miner with
      shares := miner.shares + 1
      validShares
      hashrate := c.hashrate validShares miner.difficulty elapsed }
    totalValidShares := pool.totalValidShares + 1 }

/-- An invalid share of a session, `src/stratum_pool.rs:421–423`. -/
def rejectShare (pool : PoolState) (minerId : String) (miner : MinerSession) : PoolState :=
  { pool with
    miners := pool.miners.insert minerId { miner with
      shares := miner.shares + 1
      invalidShares := miner.invalidShares + 1 } }

/-- `PoolState::submit_share`, `src/stratum_pool.rs:373–425`. The nonce is only logged. -/
def submitShare (c : Crates) (env : Env) (pool : PoolState) (minerId : String) (_nonce : U64)
    (hash : String) : Except String Bool × PoolState :=
  match pool.miners.lookup minerId with
  | none => (.error "Miner not found", pool)
  | some miner =>
    if validateShareDifficulty c hash miner.difficulty then
      let pool := pool.creditShare c minerId miner (env.now pool.httpClient.length)
      match pool.isBlockCandidate c env hash with
      | (false, pool) => (.ok true, pool)
      | (true, pool) =>
        match pool.submitBlockToNode c env hash miner.address with
        | (.error e, pool) => (.error e, pool)
        | (.ok (), pool) => (.ok true, pool)
    else (.ok false, pool.rejectShare minerId miner)

/-! ### When a block is accepted -/

/-- The node accepts the block: a successful status, and JSON without an error. -/
def AcceptedByNode : NodeAnswer → Prop
  | .response status (.ok json) =>
    200 ≤ status ∧ status < 300 ∧ (json.get "error").all Value.isNull = true
  | _ => False

instance : DecidablePred AcceptedByNode := fun answer ↦
  match answer with
  | .response _ (.ok _) => inferInstanceAs (Decidable (_ ∧ _))
  | .response _ (.error _) | .failed _ | .timeout => inferInstanceAs (Decidable False)

/-- A submission succeeds exactly when the node accepts the block. -/
theorem submissionResult_eq_ok_iff {c : Crates} {pool : PoolState} {answer : NodeAnswer} :
    submissionResult c pool answer = .ok () ↔ AcceptedByNode answer := by
  cases answer with
  | response status body =>
    unfold submissionResult
    dsimp only
    split
    · next h =>
      cases body with
      | ok json => exact ⟨(nomatch ·), fun ha ↦ absurd ⟨ha.1, ha.2.1⟩ h⟩
      | error e => exact ⟨(nomatch ·), False.elim⟩
    · next h =>
      rw [not_not] at h
      cases body with
      | ok json =>
        dsimp only [AcceptedByNode]
        cases he : json.get "error" with
        | none => simp [h]
        | some error => cases hn : error.isNull <;> simp [h, hn, Option.filter_some]
      | error e => exact ⟨(nomatch ·), False.elim⟩
  | failed e => exact ⟨(nomatch ·), False.elim⟩
  | timeout => exact ⟨(nomatch ·), False.elim⟩

/-- A block at a height is submitted and accepted, when `sent` requests went before: its
address and nonce pass the checks, the network difficulty is not zero and the node accepts
it. A block above height zero asks for the previous hash in between. -/
def BlockAccepted (c : Crates) (env : Env) (config : PoolConfig) (height : U64) (sent : Nat)
    (hashBytes : Bytes) (minerAddress : String) : Prop :=
  minerAddress.isEmpty = false ∧ minerAddress.utf8ByteSize ≤ 100 ∧ nonceOfHash hashBytes ≠ 0 ∧
    reportedDifficulty c config (env.answer sent) ≠ 0 ∧
    AcceptedByNode (env.answer (if height = 0 then sent + 1 else sent + 2))

/-- `submit_block_to_node` succeeds exactly when the block is accepted. -/
theorem submitBlockToNode_eq_ok_iff {c : Crates} (env : Env) (pool : PoolState) {hash : String}
    (minerAddress : String) {hashBytes : Bytes} (hd : c.hexDecode hash = .ok hashBytes)
    (hl : hashBytes.length = 64) :
    (pool.submitBlockToNode c env hash minerAddress).1 = .ok () ↔
      BlockAccepted c env pool.config (pool.meanwhile env).currentWork.height
        pool.httpClient.length hashBytes minerAddress := by
  unfold submitBlockToNode BlockAccepted
  rw [hd]
  dsimp only
  rw [if_neg (not_not.mpr hl)]
  split
  · next h =>
    refine ⟨(nomatch ·), fun ⟨he, hs, _⟩ ↦ ?_⟩
    rcases h with h | h
    · rw [he] at h
      exact absurd h Bool.false_ne_true
    · omega
  · next haddr =>
    rw [not_or, Bool.not_eq_true, Nat.not_lt] at haddr
    split
    · next hn => exact ⟨(nomatch ·), fun h ↦ absurd hn h.2.2.1⟩
    · next hn =>
      rw [networkDifficulty_eq]
      dsimp only
      split
      · next h0 => exact ⟨(nomatch ·), fun h ↦ absurd h0 h.2.2.2.1⟩
      · next h0 =>
        have hsent := length_httpClient_getPreviousBlockHash c env
          ((pool.meanwhile env).post env "getdifficulty" []).2
          (pool.meanwhile env).currentWork.height
        rw [length_httpClient_post, httpClient_meanwhile] at hsent
        cases hq : ((pool.meanwhile env).post env "getdifficulty" []).2.getPreviousBlockHash c env
            (pool.meanwhile env).currentWork.height with
        | mk previous p =>
          rw [hq] at hsent
          dsimp only [hq]
          change p.httpClient.length = if (pool.meanwhile env).currentWork.height = 0
            then pool.httpClient.length + 1 else pool.httpClient.length + 2 at hsent
          rw [← hsent]
          split
          · next e h =>
            refine ⟨(nomatch ·), fun ⟨_, _, _, _, ha⟩ ↦ ?_⟩
            exact absurd (h.symm.trans (submissionResult_eq_ok_iff.mpr ha)) (nomatch ·)
          · next h =>
            exact ⟨fun _ ↦ ⟨haddr.1, haddr.2, hn, h0, submissionResult_eq_ok_iff.mp h⟩, fun _ ↦ rfl⟩

/-! ### When a share is accepted -/

/-- The share check passes exactly for a hash of 64 bytes with the leading zero bits of a
difficulty that is not zero. -/
theorem validateShareDifficulty_iff {c : Crates} {hash : String} {difficulty : U64} :
    validateShareDifficulty c hash difficulty = true ↔
      ∃ hashBytes, c.hexDecode hash = .ok hashBytes ∧ hashBytes.length = 64 ∧ difficulty ≠ 0 ∧
        c.zeroBits difficulty ≤ leadingZeroBits hashBytes := by
  unfold validateShareDifficulty
  cases hd : c.hexDecode hash with
  | error e => exact ⟨(nomatch ·), fun ⟨_, h, _⟩ ↦ nomatch h⟩
  | ok hashBytes =>
    simp only [Except.ok.injEq, exists_eq_left']
    split
    · next hl => exact ⟨(nomatch ·), fun h ↦ absurd h.1 hl⟩
    · next hl =>
      split
      · next h0 => exact ⟨(nomatch ·), fun h ↦ absurd h0 h.2.1⟩
      · next h0 =>
        rw [not_not] at hl
        rw [sliceLe_leadingZeroTarget_min hl]
        exact ⟨fun h ↦ ⟨hl, h0, h⟩, fun h ↦ h.2.2⟩

/-- A hash of 64 bytes is a block candidate exactly when the network difficulty is not zero
and the hash has its leading zero bits. -/
theorem isBlockCandidate_eq {c : Crates} {env : Env} {pool : PoolState} {hash : String}
    {hashBytes : Bytes} (hd : c.hexDecode hash = .ok hashBytes) (hl : hashBytes.length = 64) :
    let network := reportedDifficulty c pool.config (env.answer pool.httpClient.length)
    pool.isBlockCandidate c env hash =
      (decide (network ≠ 0 ∧ c.zeroBits network ≤ leadingZeroBits hashBytes),
        (pool.post env "getdifficulty" []).2) := by
  intro network
  unfold isBlockCandidate
  rw [hd]
  dsimp only
  rw [if_neg (not_not.mpr hl), networkDifficulty_eq]
  dsimp only
  split
  · next h0 => rw [decide_eq_false fun h ↦ h.1 h0]
  · next h0 =>
    refine Prod.ext (Bool.eq_iff_iff.mpr ?_) rfl
    rw [sliceLe_leadingZeroTarget_min hl, decide_eq_true_iff]
    exact ⟨fun h ↦ ⟨h0, h⟩, And.right⟩

/-- The pool accepts a share when `sent` requests went before: its session exists, its hash
meets the difficulty of the session, and when the hash also meets the network difficulty,
the block is accepted at the height that the work then has. -/
def ShareAccepted (c : Crates) (env : Env) (pool : PoolState) (minerId hash : String) : Prop :=
  ∃ miner hashBytes, pool.miners.lookup minerId = some miner ∧
    c.hexDecode hash = .ok hashBytes ∧ hashBytes.length = 64 ∧ miner.difficulty ≠ 0 ∧
    c.zeroBits miner.difficulty ≤ leadingZeroBits hashBytes ∧
    let sent := pool.httpClient.length
    let network := reportedDifficulty c pool.config (env.answer sent)
    (network ≠ 0 → c.zeroBits network ≤ leadingZeroBits hashBytes →
      BlockAccepted c env pool.config (env.others (sent + 1) pool.currentWork).height (sent + 1)
        hashBytes miner.address)

/-- `PoolState::submit_share` returns `Ok(true)` exactly for the shares that the pool
accepts. -/
theorem submitShare_eq_ok_true_iff (c : Crates) (env : Env) (pool : PoolState)
    (minerId : String) (nonce : U64) (hash : String) :
    (pool.submitShare c env minerId nonce hash).1 = .ok true ↔
      ShareAccepted c env pool minerId hash := by
  unfold submitShare ShareAccepted
  cases hm : pool.miners.lookup minerId with
  | none => exact ⟨(nomatch ·), fun ⟨_, _, h, _⟩ ↦ nomatch h⟩
  | some miner =>
    dsimp only
    split
    · next hv =>
      obtain ⟨hashBytes, hd, hl, h0, hz⟩ := validateShareDifficulty_iff.mp hv
      rw [isBlockCandidate_eq hd hl]
      split
      · next p h =>
        have hc := of_decide_eq_false (Prod.mk.inj h).1
        exact ⟨fun _ ↦ ⟨miner, hashBytes, rfl, hd, hl, h0, hz, fun h1 h2 ↦ absurd ⟨h1, h2⟩ hc⟩,
          fun _ ↦ rfl⟩
      · next p h =>
        obtain ⟨hc, rfl⟩ := Prod.mk.inj h
        have hc := of_decide_eq_true hc
        have hb := submitBlockToNode_eq_ok_iff env
          (post env (pool.creditShare c minerId miner (env.now pool.httpClient.length))
            "getdifficulty" []).2 miner.address hd hl
        rw [currentWork_meanwhile, length_httpClient_post] at hb
        split
        · next e p he =>
          rw [he] at hb
          refine ⟨(nomatch ·), fun ⟨_, _, hm', hd', _, _, _, hblock⟩ ↦ ?_⟩
          cases hm'
          cases hd.symm.trans hd'
          exact absurd (hb.mpr (hblock hc.1 hc.2)) (nomatch ·)
        · next p he =>
          rw [he] at hb
          exact ⟨fun _ ↦ ⟨miner, hashBytes, rfl, hd, hl, h0, hz, fun _ _ ↦ hb.mp rfl⟩, fun _ ↦ rfl⟩
    · next hv =>
      refine ⟨(nomatch ·), fun ⟨miner', hashBytes, hm', hd, hl, h0, hz, _⟩ ↦ ?_⟩
      cases hm'
      exact absurd (validateShareDifficulty_iff.mpr ⟨hashBytes, hd, hl, h0, hz⟩) hv

end PoolState
end SilverPow.Stratum
