import SilverPow.Stratum.Pool

/-!
# What a submission asks and changes

The functions that submit a block return early from many places. Here each way through
`submit_block_to_node` is one equation for the pool that it leaves, with the requests
that it sent; the sessions and the counters of the pool are those from before.
-/

namespace SilverPow.Stratum

open SilverPow.Base SilverPow.Work

namespace PoolState

/-- The sessions and the counters. -/
def books (pool : PoolState) : Table String MinerSession × U64 × U64 :=
  (pool.miners, pool.totalShares, pool.totalValidShares)

/-- The sessions and the counters apart. -/
theorem books_eq {pool : PoolState} {miners : Table String MinerSession} {shares valid : U64}
    (h : pool.books = (miners, shares, valid)) :
    pool.miners = miners ∧ pool.totalShares = shares ∧ pool.totalValidShares = valid := by
  simpa [books] using h

/-- The pool after the requests that precede `submitblock`: the difficulty, and the previous
hash above height zero. -/
def asked (env : Env) (pool : PoolState) : PoolState :=
  let next := (pool.post env "getdifficulty" []).2
  if pool.currentWork.height = 0 then next
  else (next.post env "getblockhash" [.number (.posInt (pool.currentWork.height - 1))]).2

/-- A block passes the checks before the first request, `src/stratum_pool.rs:594–628`. -/
def Submittable (c : Crates) (hash minerAddress : String) : Prop :=
  ∃ hashBytes, c.hexDecode hash = .ok hashBytes ∧ hashBytes.length = 64 ∧
    minerAddress.isEmpty = false ∧ minerAddress.utf8ByteSize ≤ 100 ∧ nonceOfHash hashBytes ≠ 0

/-- The previous hash of a block text: the node's, or one made up from the height when the
node gives none; `src/stratum_pool.rs:707–721`. -/
def previousHash (c : Crates) (env : Env) (pool : PoolState) (height : U64) : String :=
  (pool.getPreviousBlockHash c env height).1.toOption.getD
    (c.computeSha512 s!"block_height_{(height - 1).toNat}")

/-- A text that is submitted for a hash and an address. -/
def IsBlockText (c : Crates) (hash minerAddress block : String) : Prop :=
  ∃ prevHash now bits hashBytes, prevHash.toList.length = 128 ∧
    c.hexDecode hash = .ok hashBytes ∧ hashBytes.length = 64 ∧
    block = blockHex c prevHash hash now bits (nonceOfHash hashBytes) minerAddress

/-! ### The previous hash has 128 digits -/

/-- A hash in hexadecimal text has two digits a byte. -/
theorem length_computeSha512 (c : Crates) (data : String) :
    (c.computeSha512 data).toList.length = 128 := by
  rw [Crates.computeSha512, String.toList_ofList]
  unfold Hex.encodeByte
  rw [Hex.length_pairs, Digest.length_eq]

theorem length_of_isBlockHash {hash : String} (h : isBlockHash hash = true) :
    hash.toList.length = 128 := by
  rw [isBlockHash, Bool.and_eq_true, decide_eq_true_iff, List.all_eq_true] at h
  have hascii : ∀ ch ∈ hash.toList, ch.toNat < 128 := by
    intro ch hch
    exact Hex.toNat_lt_of_isSome_digitValue (Option.isSome_of_isSome_filter _ _ (h.2 ch hch))
  rw [length_toList_of_ascii hascii, h.1]

theorem length_previousHash (c : Crates) (env : Env) (pool : PoolState) (height : U64) :
    (pool.previousHash c env height).toList.length = 128 := by
  unfold previousHash getPreviousBlockHash
  split
  · rw [Except.toOption, Option.getD_some, String.toList_ofList, List.length_replicate]
  · dsimp only
    split
    · split
      · next hash _ h => exact length_of_isBlockHash h
      · exact length_computeSha512 c _
    · exact length_computeSha512 c _

/-! ### The ways through `submit_block_to_node` -/

section Submit

variable {c : Crates} (env : Env) (pool : PoolState) {hash minerAddress : String}

/-- A block that fails a check sends nothing. -/
theorem submitBlockToNode_of_not_submittable (h : ¬Submittable c hash minerAddress) :
    (pool.submitBlockToNode c env hash minerAddress).2 = pool := by
  unfold submitBlockToNode
  cases hd : c.hexDecode hash with
  | error e => rfl
  | ok hashBytes =>
    dsimp only
    split
    · rfl
    · next hl =>
      split
      · rfl
      · next ha =>
        split
        · rfl
        · next hn =>
          rw [not_or, Bool.not_eq_true, Nat.not_lt] at ha
          exact absurd ⟨hashBytes, hd, not_not.mp hl, ha.1, ha.2, hn⟩ h

variable (h : Submittable c hash minerAddress)
include h

/-- At the difficulty zero only the difficulty is asked for. -/
theorem submitBlockToNode_of_zero
    (h0 : reportedDifficulty c pool.config (env.answer pool.httpClient.length) = 0) :
    (pool.submitBlockToNode c env hash minerAddress).2 =
      ((pool.meanwhile env).post env "getdifficulty" []).2 := by
  obtain ⟨hashBytes, hd, hl, he, hs, hn⟩ := h
  unfold submitBlockToNode
  simp only [hd, hl, he, Nat.not_lt.mpr hs, if_neg hn, networkDifficulty_eq, config_meanwhile,
    httpClient_meanwhile, h0, ne_eq, not_true_eq_false, Bool.false_eq_true, or_self, if_false,
    if_true]

/-- At any other difficulty the block is submitted at the height that the work then has, and
the height is synchronized if the node accepts it. -/
theorem submitBlockToNode_of_ne_zero
    (h0 : reportedDifficulty c pool.config (env.answer pool.httpClient.length) ≠ 0) :
    ∃ block, IsBlockText c hash minerAddress block ∧
      (pool.submitBlockToNode c env hash minerAddress).2 =
      let asked := (pool.meanwhile env).asked env
      let submitted := (asked.post env "submitblock" [.string block]).2
      if AcceptedByNode (env.answer asked.httpClient.length) then
        (submitted.syncBlockHeightFromNode c env).2
      else submitted := by
  obtain ⟨hashBytes, hd, hl, he, hs, hn⟩ := h
  rw [← config_meanwhile env, ← httpClient_meanwhile env] at h0
  have hasked : (((pool.meanwhile env).post env "getdifficulty" []).2.getPreviousBlockHash c env
      (pool.meanwhile env).currentWork.height).2 = (pool.meanwhile env).asked env :=
    getPreviousBlockHash_snd ..
  unfold submitBlockToNode
  simp only [hd, hl, he, Nat.not_lt.mpr hs, if_neg hn, networkDifficulty_eq, if_neg h0, ne_eq,
    not_true_eq_false, Bool.false_eq_true, or_self, if_false]
  have hprev := length_previousHash c env ((pool.meanwhile env).post env "getdifficulty" []).2
    (pool.meanwhile env).currentWork.height
  unfold previousHash at hprev
  cases hq : ((pool.meanwhile env).post env "getdifficulty" []).2.getPreviousBlockHash c env
      (pool.meanwhile env).currentWork.height with
  | mk previous p =>
    rw [hq] at hasked hprev
    dsimp only at hasked hprev
    subst hasked
    dsimp only
    generalize hblock : blockHex c _ _ _ _ _ _ = block
    refine ⟨block, ⟨_, _, _, hashBytes, hprev, hd, hl, hblock.symm⟩, ?_⟩
    split
    · next e hr =>
      have ha : ¬AcceptedByNode
          (env.answer ((pool.meanwhile env).asked env).httpClient.length) := by
        intro ha
        cases hr.symm.trans (submissionResult_eq_ok_iff.mpr ha)
      rw [if_neg ha]
    · next hr =>
      have ha : AcceptedByNode (env.answer ((pool.meanwhile env).asked env).httpClient.length) :=
        submissionResult_eq_ok_iff.mp hr
      rw [if_pos ha]

end Submit

/-! ### What stays as it was -/

section Frame

variable (c : Crates) (env : Env) (pool : PoolState)

@[simp] theorem books_meanwhile : (pool.meanwhile env).books = pool.books := rfl

@[simp] theorem books_post (method : String) (params : List Value) :
    (pool.post env method params).2.books = pool.books := rfl

@[simp] theorem config_post (method : String) (params : List Value) :
    (pool.post env method params).2.config = pool.config := rfl

@[simp] theorem books_asked : (pool.asked env).books = pool.books := by
  unfold asked
  dsimp only
  split <;> rfl

@[simp] theorem config_asked : (pool.asked env).config = pool.config := by
  unfold asked
  dsimp only
  split <;> rfl

@[simp] theorem books_syncBlockHeightFromNode :
    (pool.syncBlockHeightFromNode c env).2.books = pool.books := by
  unfold syncBlockHeightFromNode
  dsimp only
  split <;> rfl

@[simp] theorem config_syncBlockHeightFromNode :
    (pool.syncBlockHeightFromNode c env).2.config = pool.config := by
  unfold syncBlockHeightFromNode
  dsimp only
  split <;> rfl

/-- Synchronizing the height is one request. -/
theorem httpClient_syncBlockHeightFromNode :
    (pool.syncBlockHeightFromNode c env).2.httpClient =
      pool.httpClient ++ [⟨"getblockcount", []⟩] := by
  unfold syncBlockHeightFromNode
  dsimp only
  split <;> rfl

/-- Submitting a block changes no session, no counter and no parameter. -/
theorem frame_submitBlockToNode (hash minerAddress : String) :
    (pool.submitBlockToNode c env hash minerAddress).2.books = pool.books ∧
      (pool.submitBlockToNode c env hash minerAddress).2.config = pool.config := by
  by_cases h : Submittable c hash minerAddress
  · by_cases h0 : reportedDifficulty c pool.config (env.answer pool.httpClient.length) = 0
    · rw [submitBlockToNode_of_zero env pool h h0]
      simp
    · obtain ⟨block, -, hb⟩ := submitBlockToNode_of_ne_zero env pool h h0
      rw [hb]
      dsimp only
      split <;> simp
  · rw [submitBlockToNode_of_not_submittable env pool h]
    simp

/-- Neither does the check for a block candidate. -/
theorem frame_isBlockCandidate (hash : String) :
    (pool.isBlockCandidate c env hash).2.books = pool.books ∧
      (pool.isBlockCandidate c env hash).2.config = pool.config := by
  unfold isBlockCandidate
  simp only [networkDifficulty_eq]
  split
  · simp
  · split
    · simp
    · split <;> simp

end Frame

end PoolState
end SilverPow.Stratum
