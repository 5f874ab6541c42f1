import SilverPow.Base.Log
import SilverPow.Stratum.Agreement
import SilverPow.Stratum.Sessions

/-!
# Block submissions of one share

A share reaches `submitblock` from two places: the handler submits it when its `is_block`
flag asks for that, and `submit_share` when its hash meets the network difficulty. The
exchanges with the node that one message causes are listed for each way, so that what
holds of all of them can be read off. The answers are numbered as the handler's own requests
ask for them; that of the synchronization which it spawns stands anywhere after the flag.
-/

namespace SilverPow.Stratum

open SilverPow.Base SilverPow.Work

/-! ### Exchanges with the node -/

/-- A request, by its method, with its answer. -/
abbrev Exchange := String × NodeAnswer

/-- A block is submitted. -/
def IsSubmission (x : Exchange) : Prop := x.1 = "submitblock"

instance : DecidablePred IsSubmission := fun x ↦ inferInstanceAs (Decidable (x.1 = "submitblock"))

/-- Some requests with their answers, when `sent` requests went before. -/
def exchanges (env : Env) : Nat → List RpcRequest → List Exchange
  | _, [] => []
  | sent, request :: requests =>
    (request.method, env.answer sent) :: exchanges env (sent + 1) requests

/-- What was exchanged with the node from one state of the pool to a later one. -/
def PoolState.exchangesSince (env : Env) (before after : PoolState) : List Exchange :=
  exchanges env before.httpClient.length (after.httpClient.drop before.httpClient.length)

/-- From one state of the pool to another, exactly these exchanges took place. -/
def PoolState.Exchanged (env : Env) (before after : PoolState) (xs : List Exchange) : Prop :=
  ∃ requests, after.httpClient = before.httpClient ++ requests ∧
    exchanges env before.httpClient.length requests = xs

/-- Exchanges one after the other. -/
theorem exchanges_append (env : Env) (sent : Nat) (requests requests' : List RpcRequest) :
    exchanges env sent (requests ++ requests') =
      exchanges env sent requests ++ exchanges env (sent + requests.length) requests' := by
  induction requests generalizing sent with
  | nil => rfl
  | cons request requests ih =>
    rw [List.cons_append, exchanges, ih, exchanges, List.cons_append, List.length_cons,
      Nat.add_right_comm, Nat.add_assoc]

/-- Every request is answered. -/
theorem length_exchanges (env : Env) (sent : Nat) (requests : List RpcRequest) :
    (exchanges env sent requests).length = requests.length := by
  induction requests generalizing sent with
  | nil => rfl
  | cons request requests ih => rw [exchanges, List.length_cons, ih, List.length_cons]

namespace PoolState

variable {env : Env} {a b d : PoolState} {xs ys : List Exchange}

/-- What was exchanged can be read off the later state. -/
theorem Exchanged.exchangesSince_eq (h : Exchanged env a b xs) : a.exchangesSince env b = xs := by
  obtain ⟨requests, hb, rfl⟩ := h
  rw [exchangesSince, hb, List.drop_left]

/-- A state without new requests. -/
theorem Exchanged.refl (h : b.httpClient = a.httpClient) : Exchanged env a b [] :=
  ⟨[], by rw [h, List.append_nil], rfl⟩

/-- Exchanges add up. -/
theorem Exchanged.trans (h : Exchanged env a b xs) (h' : Exchanged env b d ys) :
    Exchanged env a d (xs ++ ys) := by
  obtain ⟨requests, hb, rfl⟩ := h
  obtain ⟨requests', hd, rfl⟩ := h'
  refine ⟨requests ++ requests', by rw [hd, hb, List.append_assoc], ?_⟩
  rw [exchanges_append, hb, List.length_append]

/-- The number of requests after some exchanges. -/
theorem Exchanged.length_eq (h : Exchanged env a b xs) :
    b.httpClient.length = a.httpClient.length + xs.length := by
  obtain ⟨requests, hb, rfl⟩ := h
  rw [hb, List.length_append, length_exchanges]

/-- A request is one exchange. -/
theorem exchanged_post (env : Env) (pool : PoolState) (method : String) (params : List Value) :
    Exchanged env pool (pool.post env method params).2
      [(method, env.answer pool.httpClient.length)] :=
  ⟨[⟨method, params⟩], rfl, rfl⟩

/-! ### One block submission -/

instance (c : Crates) (hash minerAddress : String) : Decidable (Submittable c hash minerAddress) :=
  match h : c.hexDecode hash with
  | .ok hashBytes =>
    decidable_of_iff (hashBytes.length = 64 ∧ minerAddress.isEmpty = false ∧
      minerAddress.utf8ByteSize ≤ 100 ∧ nonceOfHash hashBytes ≠ 0) (by simp [Submittable, h])
  | .error _ => isFalse (by simp [Submittable, h])

/-- The answer to `submitblock`, and the synchronization if the node accepts. -/
def submitExchanges (env : Env) (sent : Nat) : List Exchange :=
  ("submitblock", env.answer sent) ::
    if AcceptedByNode (env.answer sent) then [("getblockcount", env.answer (sent + 1))] else []

/-- The exchanges before `submitblock` at a height, when `sent` requests went before. -/
def askedExchanges (env : Env) (height : U64) (sent : Nat) : List Exchange :=
  ("getdifficulty", env.answer sent) ::
    if height = 0 then [] else [("getblockhash", env.answer (sent + 1))]

/-- The exchanges of a block submission. -/
def submission (env : Env) (height : U64) (sent : Nat) : List Exchange :=
  let asked := askedExchanges env height sent
  asked ++ submitExchanges env (sent + asked.length)

/-- What precedes `submitblock` is asked for. -/
theorem exchanged_asked (env : Env) (pool : PoolState) : Exchanged env pool (pool.asked env)
    (askedExchanges env pool.currentWork.height pool.httpClient.length) := by
  have hfirst := exchanged_post env pool "getdifficulty" []
  unfold asked askedExchanges
  dsimp only
  split
  · exact hfirst
  · have hsecond := exchanged_post env (pool.post env "getdifficulty" []).2
      "getblockhash" [.number (.posInt (pool.currentWork.height - 1))]
    rw [length_httpClient_post] at hsecond
    exact hfirst.trans hsecond

/-- A block is submitted, and the height synchronized if the node accepts it. -/
theorem exchanged_submitted (c : Crates) (env : Env) (pool : PoolState) (params : List Value) :
    let submitted := (pool.post env "submitblock" params).2
    Exchanged env pool
      (if AcceptedByNode (env.answer pool.httpClient.length) then
        (submitted.syncBlockHeightFromNode c env).2 else submitted)
      (submitExchanges env pool.httpClient.length) := by
  intro submitted
  have hp : Exchanged env pool submitted [("submitblock", env.answer pool.httpClient.length)] :=
    exchanged_post env pool "submitblock" params
  unfold submitExchanges
  split
  · have hs : Exchanged env submitted (submitted.syncBlockHeightFromNode c env).2
        [("getblockcount", env.answer submitted.httpClient.length)] :=
      ⟨_, httpClient_syncBlockHeightFromNode c env submitted, rfl⟩
    rw [hp.length_eq] at hs
    exact hp.trans hs
  · exact hp

/-- The exchanges of `submit_block_to_node`, when `sent` requests went before. -/
def blockExchanges (c : Crates) (env : Env) (config : PoolConfig) (height : U64) (sent : Nat)
    (hash minerAddress : String) : List Exchange :=
  if Submittable c hash minerAddress then
    if reportedDifficulty c config (env.answer sent) = 0 then [("getdifficulty", env.answer sent)]
    else submission env height sent
  else []

/-- These are the exchanges of `submit_block_to_node`. -/
theorem exchanged_submitBlockToNode (c : Crates) (env : Env) (pool : PoolState)
    (hash minerAddress : String) :
    Exchanged env pool (pool.submitBlockToNode c env hash minerAddress).2
      (blockExchanges c env pool.config (pool.meanwhile env).currentWork.height
        pool.httpClient.length hash minerAddress) := by
  unfold blockExchanges
  split
  · next h =>
    split
    · next h0 =>
      rw [submitBlockToNode_of_zero env pool h h0]
      exact exchanged_post env (pool.meanwhile env) "getdifficulty" []
    · next h0 =>
      obtain ⟨block, -, hb⟩ := submitBlockToNode_of_ne_zero env pool h h0
      have hasked := exchanged_asked env (pool.meanwhile env)
      have hsubmitted := exchanged_submitted c env ((pool.meanwhile env).asked env)
        [.string block]
      rw [hasked.length_eq] at hsubmitted
      rw [hb]
      dsimp only
      rw [hasked.length_eq]
      exact hasked.trans hsubmitted
  · next h =>
    rw [submitBlockToNode_of_not_submittable env pool h]
    exact .refl rfl

/-- The exchanges that the `is_block` flag leads to. -/
def flagExchanges (c : Crates) (env : Env) (pool : PoolState) (hash minerAddress : String)
    (isBlock : Bool) : List Exchange :=
  if isBlock then
    blockExchanges c env pool.config (pool.meanwhile env).currentWork.height
      pool.httpClient.length hash minerAddress
  else []

/-- These are the exchanges that the `is_block` flag leads to. -/
theorem exchanged_afterBlockFlag (c : Crates) (env : Env) (pool : PoolState) (conn : Connection)
    (hash : String) (isBlock : Bool) :
    Exchanged env pool (pool.afterBlockFlag c env conn hash isBlock)
      (flagExchanges c env pool hash (conn.minerAddress.getD "") isBlock) := by
  unfold afterBlockFlag flagExchanges
  split
  · exact exchanged_submitBlockToNode c env pool hash (conn.minerAddress.getD "")
  · exact .refl rfl

/-- A share of a session meets the difficulty of the session, and that of the network as the
pool takes it from an answer. -/
def Candidate (c : Crates) (config : PoolConfig) (miner : MinerSession) (hash : String)
    (answer : NodeAnswer) : Prop :=
  ∃ hashBytes, c.hexDecode hash = .ok hashBytes ∧
    validateShareDifficulty c hash miner.difficulty = true ∧
    reportedDifficulty c config answer ≠ 0 ∧
    c.zeroBits (reportedDifficulty c config answer) ≤ leadingZeroBits hashBytes

/-- The exchanges of `PoolState::submit_share`. -/
theorem exchanged_submitShare (c : Crates) (env : Env) (pool : PoolState) (minerId : String)
    (nonce : U64) (hash : String) :
    ∃ xs, Exchanged env pool (pool.submitShare c env minerId nonce hash).2 xs ∧
      ((∃ miner height, pool.miners.lookup minerId = some miner ∧
          Candidate c pool.config miner hash (env.answer pool.httpClient.length) ∧
          xs = ("getdifficulty", env.answer pool.httpClient.length) ::
            blockExchanges c env pool.config height (pool.httpClient.length + 1) hash
              miner.address) ∨
        (∀ miner, pool.miners.lookup minerId = some miner →
          ¬Candidate c pool.config miner hash (env.answer pool.httpClient.length)) ∧
          ∀ x ∈ xs, ¬IsSubmission x) := by
  cases hm : pool.miners.lookup minerId with
  | none =>
    rw [submitShare_of_none c env nonce hash hm]
    exact ⟨[], .refl rfl, .inr ⟨nofun, nofun⟩⟩
  | some miner =>
    cases hv : validateShareDifficulty c hash miner.difficulty with
    | false =>
      rw [submitShare_of_invalid c env nonce hash hm hv]
      refine ⟨[], .refl rfl, .inr ⟨?_, nofun⟩⟩
      rintro _ ⟨⟩ ⟨_, -, hv', -⟩
      exact absurd (hv.symm.trans hv') Bool.false_ne_true
    | true =>
      obtain ⟨hashBytes, hd, hl, -, -⟩ := validateShareDifficulty_iff.mp hv
      have hasked : Exchanged env pool
          ((pool.creditShare c minerId miner (env.now pool.httpClient.length)).post env
            "getdifficulty" []).2 [("getdifficulty", env.answer pool.httpClient.length)] :=
        exchanged_post env _ "getdifficulty" []
      rw [submitShare_of_valid c env nonce hash hm hv]
      dsimp only
      rw [isBlockCandidate_eq hd hl]
      simp only [decide_eq_true_eq]
      split
      · next hc =>
        have hsubmit := exchanged_submitBlockToNode c env
          ((pool.creditShare c minerId miner (env.now pool.httpClient.length)).post env
            "getdifficulty" []).2 hash miner.address
        rw [hasked.length_eq] at hsubmit
        exact ⟨_, hasked.trans hsubmit, .inl ⟨miner, _, rfl, ⟨hashBytes, hd, hv, hc⟩, rfl⟩⟩
      · next hc =>
        refine ⟨_, hasked, .inr ⟨?_, by simp [IsSubmission]⟩⟩
        rintro _ ⟨⟩ ⟨_, hd', -, hc'⟩
        cases hd.symm.trans hd'
        exact hc hc'

end PoolState

/-! ### What is asked of the exchanges of a message -/

/-- The difficulty that the node reports. -/
def nodeReport (c : Crates) (answer : NodeAnswer) : Option U64 :=
  match answer.result with
  | some (.number (.posInt n)) => some n
  | some (.number (.negInt _)) => some 0
  | some (.number (.float bits)) => some (c.castU64 bits)
  | _ => none

/-- A hash has 64 bytes and meets the difficulty that the node reports. -/
def MeetsReport (c : Crates) (hash : String) (answer : NodeAnswer) : Prop :=
  ∃ hashBytes difficulty, c.hexDecode hash = .ok hashBytes ∧ hashBytes.length = 64 ∧
    nodeReport c answer = some difficulty ∧ difficulty ≠ 0 ∧
    c.zeroBits difficulty ≤ leadingZeroBits hashBytes

/-- The node reports a difficulty that the hash meets. -/
def IsMetReport (c : Crates) (hash : String) (x : Exchange) : Prop :=
  x.1 = "getdifficulty" ∧ MeetsReport c hash x.2

/-- A submission comes after a report of a difficulty that the hash meets. -/
def AfterReport (c : Crates) (hash : String) (front : List Exchange) (x : Exchange) : Prop :=
  IsSubmission x → ∃ y ∈ front, IsMetReport c hash y

/-- At most one block is submitted, after the node reported a difficulty that the hash of 64
bytes meets. -/
structure OneSubmission (c : Crates) (hash : String) (xs : List Exchange) : Prop where
  once : xs.countP (decide <| IsSubmission ·) ≤ 1
  met : Log.Each (AfterReport c hash) xs

/-- What a message makes the pool exchange with the node: the exchanges of the handler and,
somewhere among them, that of the synchronization if it spawned one. -/
inductive Handled.Exchanges (env : Env) (before : PoolState) (handled : Handled) :
    List Exchange → Prop
  | alone (h : handled.spawned = false) :
    Exchanges env before handled (before.exchangesSince env handled.pool)
  | synchronized (h : handled.spawned = true) {front back : List Exchange}
    (hown : before.exchangesSince env handled.pool = front ++ back) (answer : NodeAnswer) :
    Exchanges env before handled (front ++ ("getblockcount", answer) :: back)

/-- Whatever became of a message, there is an order of the exchanges. -/
theorem Handled.exists_exchanges (env : Env) (before : PoolState) (handled : Handled) :
    ∃ xs, handled.Exchanges env before xs := by
  cases h : handled.spawned with
  | false => exact ⟨_, .alone h⟩
  | true => exact ⟨_, .synchronized h (List.nil_append _).symm .timeout⟩

/-- The pool takes the report of the node, or its own difficulty. -/
theorem reportedDifficulty_eq (c : Crates) (config : PoolConfig) (answer : NodeAnswer) :
    PoolState.reportedDifficulty c config answer =
      (nodeReport c answer).getD config.poolDifficulty := by
  unfold PoolState.reportedDifficulty nodeReport
  cases answer.result with
  | none => rfl
  | some value =>
    cases value with
    | number n => cases n <;> rfl
    | _ => rfl

/-- A difficulty that is taken as zero is not met. -/
theorem not_meetsReport_of_zero {c : Crates} {config : PoolConfig} {hash : String}
    {answer : NodeAnswer} (h : PoolState.reportedDifficulty c config answer = 0) :
    ¬MeetsReport c hash answer := by
  rintro ⟨hashBytes, difficulty, -, -, hr, h0, -⟩
  rw [reportedDifficulty_eq, hr, Option.getD_some] at h
  exact h0 h

namespace PoolState

section Free

variable {c : Crates} {hash : String} {xs ys : List Exchange}

/-- Exchanges without a submission. -/
theorem countP_eq_zero_of_forall_not (h : ∀ x ∈ xs, ¬IsSubmission x) :
    xs.countP (decide <| IsSubmission ·) = 0 := by
  rw [List.countP_eq_zero]
  simpa using h

/-- Nothing can go wrong in them. -/
theorem oneSubmission_of_forall_not (h : ∀ x ∈ xs, ¬IsSubmission x) : OneSubmission c hash xs := by
  constructor
  · rw [countP_eq_zero_of_forall_not h]
    exact Nat.zero_le 1
  · exact Log.each_of_forall fun x hx _ hs ↦ absurd hs (h x hx)

/-- Nor do they matter to those before them. -/
theorem oneSubmission_append_of_forall_not (h : ∀ y ∈ ys, ¬IsSubmission y) :
    OneSubmission c hash (xs ++ ys) ↔ OneSubmission c hash xs := by
  constructor
  · rintro ⟨once, met⟩
    rw [List.countP_append, countP_eq_zero_of_forall_not h, add_zero] at once
    exact ⟨once, (Log.each_append.mp met).1⟩
  · rintro ⟨once, met⟩
    constructor
    · rw [List.countP_append, countP_eq_zero_of_forall_not h, add_zero]
      exact once
    · rw [Log.each_append]
      exact ⟨met, Log.each_of_forall fun y hy _ hs ↦ absurd hs (h y hy)⟩

end Free

section Block

variable (c : Crates) (env : Env) (config : PoolConfig)

/-- `submit_block_to_node` sends `submitblock`, when `sent` requests went before: the block
passes the checks and the difficulty is not zero. -/
def BlockSubmitted (sent : Nat) (hash minerAddress : String) : Prop :=
  Submittable c hash minerAddress ∧ reportedDifficulty c config (env.answer sent) ≠ 0

/-- A submission submits one block. -/
theorem countP_submission (height : U64) (sent : Nat) :
    (submission env height sent).countP (decide <| IsSubmission ·) = 1 := by
  unfold submission askedExchanges submitExchanges
  dsimp only
  split
  · split <;> simp [IsSubmission]
  · split <;> simp [IsSubmission]

/-- What precedes `submitblock` is no submission, and it reports the difficulty once. -/
theorem exists_isMetReport_askedExchanges (hash : String) (height : U64) (sent : Nat) :
    (∃ y ∈ askedExchanges env height sent, IsMetReport c hash y) ↔
      MeetsReport c hash (env.answer sent) := by
  unfold askedExchanges
  split <;> simp [IsMetReport]

/-- The block of a submission comes after the report that the submission asks for. -/
theorem each_submission (hash : String) (height : U64) (sent : Nat) (before : List Exchange) :
    Log.Each (fun front ↦ AfterReport c hash (before ++ front)) (submission env height sent) ↔
      (∃ y ∈ before, IsMetReport c hash y) ∨ MeetsReport c hash (env.answer sent) := by
  have hasked : ∀ x ∈ askedExchanges env height sent, ¬IsSubmission x := by
    unfold askedExchanges
    split <;> simp [IsSubmission]
  unfold submission submitExchanges
  rw [Log.each_append, Log.each_cons, ← exists_isMetReport_askedExchanges c env hash height,
    List.append_nil]
  constructor
  · rintro ⟨-, hreport, -⟩
    simpa [or_and_right, exists_or] using hreport rfl
  · intro h
    refine ⟨Log.each_of_forall fun x hx _ hs ↦ absurd hs (hasked x hx), fun _ ↦ ?_, ?_⟩
    · simpa [or_and_right, exists_or] using h
    · apply Log.each_of_forall
      intro x hx _ hs
      split at hx
      · simp_all [IsSubmission]
      · cases hx

variable {c env config} {height : U64} {sent : Nat} {hash minerAddress : String}

/-- If a block is submitted, its exchanges are those of a submission. -/
theorem blockExchanges_of_submitted (h : BlockSubmitted c env config sent hash minerAddress) :
    blockExchanges c env config height sent hash minerAddress = submission env height sent := by
  rw [blockExchanges, if_pos h.1, if_neg h.2]

/-- If no block is submitted, then none of the exchanges matters. -/
theorem not_isSubmission_of_not_submitted
    (h : ¬BlockSubmitted c env config sent hash minerAddress) :
    ∀ x ∈ blockExchanges c env config height sent hash minerAddress,
      ¬IsSubmission x ∧ ¬IsMetReport c hash x := by
  unfold blockExchanges
  split
  · next hs =>
    split
    · next h0 => simp [IsSubmission, IsMetReport, not_meetsReport_of_zero h0]
    · next h0 => exact absurd ⟨hs, h0⟩ h
  · exact nofun

end Block

/-! ### The two ways to a submission -/

section Ways

variable (c : Crates) (env : Env) (pool : PoolState) (minerId hash minerAddress : String)
  (isBlock : Bool)

/-- The `is_block` flag leads to a submission. -/
def FlagSubmits : Prop :=
  isBlock = true ∧ BlockSubmitted c env pool.config pool.httpClient.length hash minerAddress

/-- Number of requests sent when the share is submitted. -/
def sentAfterFlag : Nat :=
  pool.httpClient.length + (flagExchanges c env pool hash minerAddress isBlock).length

/-- The share leads to a submission, when `sent` requests went before. -/
def ShareSubmits (sent : Nat) : Prop :=
  ∃ miner, pool.miners.lookup minerId = some miner ∧
    Candidate c pool.config miner hash (env.answer sent) ∧
    BlockSubmitted c env pool.config (sent + 1) hash miner.address

/-- A share submits at most one block: if the flag leads to a submission, then the hash meets
the report that this one asks for and the share leads to no other. If only the share leads
to one, then the hash meets one of the two reports that it asks for. -/
def SubmitsOnce : Prop :=
  let sent := pool.httpClient.length
  let next := sentAfterFlag c env pool hash minerAddress isBlock
  (FlagSubmits c env pool hash minerAddress isBlock →
      MeetsReport c hash (env.answer sent) ∧ ¬ShareSubmits c env pool minerId hash next) ∧
    (¬FlagSubmits c env pool hash minerAddress isBlock →
      ShareSubmits c env pool minerId hash next →
      MeetsReport c hash (env.answer next) ∨ MeetsReport c hash (env.answer (next + 1)))

/-- What the flag leads to. -/
theorem flagExchanges_cases :
    FlagSubmits c env pool hash minerAddress isBlock ∧
        flagExchanges c env pool hash minerAddress isBlock =
          submission env (pool.meanwhile env).currentWork.height pool.httpClient.length ∨
      ¬FlagSubmits c env pool hash minerAddress isBlock ∧
        ∀ x ∈ flagExchanges c env pool hash minerAddress isBlock,
          ¬IsSubmission x ∧ ¬IsMetReport c hash x := by
  unfold FlagSubmits flagExchanges
  cases isBlock with
  | false => exact .inr ⟨nofun, nofun⟩
  | true =>
    by_cases h : BlockSubmitted c env pool.config pool.httpClient.length hash minerAddress
    · exact .inl ⟨⟨rfl, h⟩, blockExchanges_of_submitted h⟩
    · exact .inr ⟨fun hf ↦ h hf.2, not_isSubmission_of_not_submitted h⟩

variable {c env pool minerId hash minerAddress isBlock}

/-- The submission that the flag leads to is the only one and its report is met, exactly if
the hash meets the report. -/
theorem oneSubmission_submission {height : U64} {sent : Nat} :
    OneSubmission c hash (submission env height sent) ↔ MeetsReport c hash (env.answer sent) := by
  have hmet := each_submission c env hash height sent []
  constructor
  · rintro ⟨-, met⟩
    simpa using hmet.mp met
  · intro h
    exact ⟨(countP_submission env height sent).le, hmet.mpr (.inr h)⟩

/-- Without a submission of the share, the flag alone decides. -/
theorem oneSubmission_flagExchanges :
    OneSubmission c hash (flagExchanges c env pool hash minerAddress isBlock) ↔
      (FlagSubmits c env pool hash minerAddress isBlock →
        MeetsReport c hash (env.answer pool.httpClient.length)) := by
  rcases flagExchanges_cases c env pool hash minerAddress isBlock with ⟨hf, hxs⟩ | ⟨hf, hxs⟩
  · rw [hxs, oneSubmission_submission]
    simp [hf]
  · apply iff_of_true
    · exact oneSubmission_of_forall_not fun x hx ↦ (hxs x hx).1
    · exact fun h ↦ absurd h hf

/-- Two submissions are one too many. -/
theorem not_oneSubmission_twice {height height' : U64} {sent sent' : Nat} {x : Exchange} :
    ¬OneSubmission c hash (submission env height sent ++ x :: submission env height' sent') := by
  rintro ⟨once, -⟩
  rw [List.countP_append, List.countP_cons, countP_submission, countP_submission] at once
  omega

/-- If only the share is submitted as a block, then its hash has to meet one of the two
reports that the pool asks for. -/
theorem oneSubmission_share {xs : List Exchange} {height : U64} {sent : Nat}
    (h : ∀ x ∈ xs, ¬IsSubmission x ∧ ¬IsMetReport c hash x) :
    OneSubmission c hash
        (xs ++ ("getdifficulty", env.answer sent) :: submission env height (sent + 1)) ↔
      MeetsReport c hash (env.answer sent) ∨ MeetsReport c hash (env.answer (sent + 1)) := by
  have hzero := countP_eq_zero_of_forall_not fun x hx ↦ (h x hx).1
  have hbefore : (∃ y ∈ xs ++ [("getdifficulty", env.answer sent)], IsMetReport c hash y) ↔
      MeetsReport c hash (env.answer sent) := by
    constructor
    · rintro ⟨y, hy, hmet⟩
      rcases List.mem_append.mp hy with hy | hy
      · exact absurd hmet (h y hy).2
      · rw [List.mem_singleton.mp hy] at hmet
        exact hmet.2
    · intro hmet
      exact ⟨("getdifficulty", env.answer sent), by simp, rfl, hmet⟩
  have hmet := each_submission c env hash height (sent + 1)
    (xs ++ [("getdifficulty", env.answer sent)])
  rw [hbefore] at hmet
  rw [← hmet, List.append_cons]
  constructor
  · rintro ⟨-, met⟩
    exact (Log.each_append.mp met).2
  · intro heach
    constructor
    · rw [List.countP_append, List.countP_append, hzero, countP_submission]
      simp [IsSubmission]
    · rw [Log.each_append]
      refine ⟨Log.each_of_forall fun x hx _ hs ↦ ?_, heach⟩
      rcases List.mem_append.mp hx with hx | hx
      · exact absurd hs (h x hx).1
      · simp_all [IsSubmission]

end Ways

/-- An exchange that is neither a submission nor a report does not matter, wherever it
stands. -/
theorem oneSubmission_insert {c : Crates} {hash : String} {xs ys : List Exchange} {x : Exchange}
    (hs : ¬IsSubmission x) (hr : ¬IsMetReport c hash x) :
    OneSubmission c hash (xs ++ x :: ys) ↔ OneSubmission c hash (xs ++ ys) := by
  have hcount : (xs ++ x :: ys).countP (decide <| IsSubmission ·) =
      (xs ++ ys).countP (decide <| IsSubmission ·) := by
    simp [List.countP_append, hs]
  have heach : Log.Each (AfterReport c hash) (xs ++ x :: ys) ↔
      Log.Each (AfterReport c hash) (xs ++ ys) := by
    apply Log.each_insert
    · exact fun h ↦ absurd h hs
    · simp [AfterReport, or_and_right, exists_or, hr]
  constructor
  · exact fun ⟨once, met⟩ ↦ ⟨hcount ▸ once, heach.mp met⟩
  · exact fun ⟨once, met⟩ ↦ ⟨hcount ▸ once, heach.mpr met⟩

/-- The flag changes neither the sessions nor the parameters. -/
theorem frame_afterBlockFlag (c : Crates) (env : Env) (pool : PoolState) (conn : Connection)
    (hash : String) (isBlock : Bool) :
    (pool.afterBlockFlag c env conn hash isBlock).books = pool.books ∧
      (pool.afterBlockFlag c env conn hash isBlock).config = pool.config := by
  unfold afterBlockFlag
  split
  · exact frame_submitBlockToNode ..
  · exact ⟨rfl, rfl⟩

/-- What the flag and the share lead to together. -/
theorem oneSubmission_flag_share (c : Crates) (env : Env) (pool : PoolState) (conn : Connection)
    (minerId : String) (nonce : U64) (hash : String) (isBlock : Bool) :
    OneSubmission c hash (pool.exchangesSince env
        ((pool.afterBlockFlag c env conn hash isBlock).submitShare c env minerId nonce hash).2) ↔
      SubmitsOnce c env pool minerId hash (conn.minerAddress.getD "") isBlock := by
  let flagged := pool.afterBlockFlag c env conn hash isBlock
  change OneSubmission c hash
    (pool.exchangesSince env (flagged.submitShare c env minerId nonce hash).2) ↔ _
  have hflag := exchanged_afterBlockFlag c env pool conn hash isBlock
  obtain ⟨xs, hshare, hways⟩ := exchanged_submitShare c env flagged minerId nonce hash
  obtain ⟨hbooks, hconfig⟩ := frame_afterBlockFlag c env pool conn hash isBlock
  have hminers : flagged.miners = pool.miners := (books_eq hbooks).1
  have hsent : flagged.httpClient.length =
      sentAfterFlag c env pool hash (conn.minerAddress.getD "") isBlock := hflag.length_eq
  rw [hminers, hconfig] at hways
  rw [(hflag.trans hshare).exchangesSince_eq]
  unfold SubmitsOnce
  dsimp only
  rw [← hsent]
  generalize flagged.httpClient.length = next at hways
  -- Without a submission of the share only the flag matters.
  have hother {ys : List Exchange} (hys : ∀ y ∈ ys, ¬IsSubmission y)
      (hn : ¬ShareSubmits c env pool minerId hash next) :
      OneSubmission c hash
          (flagExchanges c env pool hash (conn.minerAddress.getD "") isBlock ++ ys) ↔ _ :=
    (oneSubmission_append_of_forall_not hys).trans oneSubmission_flagExchanges
  rcases hways with ⟨miner, height, hm, hc, rfl⟩ | ⟨hnone, hxs⟩
  · by_cases hb : BlockSubmitted c env pool.config (next + 1) hash miner.address
    · have hs : ShareSubmits c env pool minerId hash next := ⟨miner, hm, hc, hb⟩
      rw [blockExchanges_of_submitted hb]
      rcases flagExchanges_cases c env pool hash (conn.minerAddress.getD "") isBlock with
        ⟨hf, he⟩ | ⟨hf, he⟩
      · rw [he]
        exact iff_of_false not_oneSubmission_twice fun h ↦ (h.1 hf).2 hs
      · rw [oneSubmission_share he]
        simp [hf, hs]
    · have hn : ¬ShareSubmits c env pool minerId hash next := by
        rintro ⟨miner', hm', -, hb'⟩
        cases hm.symm.trans hm'
        exact hb hb'
      rw [hother ?_ hn]
      · simp [hn]
      · rw [List.forall_mem_cons]
        exact ⟨by simp [IsSubmission], fun x hx ↦ (not_isSubmission_of_not_submitted hb x hx).1⟩
  · have hn : ¬ShareSubmits c env pool minerId hash next := by
      rintro ⟨miner, hm, hc, -⟩
      exact hnone miner hm hc
    rw [hother hxs hn]
    simp [hn]

/-- A share of an authorized session that is not stale. -/
theorem oneSubmission_of_not_stale (c : Crates) (env : Env) {pool : PoolState} {conn : Connection}
    {minerId : String} (ha : conn.isAuthorized = true) (hm : conn.minerId = some minerId)
    (requestId : Value) {params : List Value} (hs : ¬Stale pool (paramString params 1 "0")) :
    OneSubmission c (paramString params 3 "")
        (pool.exchangesSince env (handleSubmit c env pool conn requestId params).pool) ↔
      SubmitsOnce c env pool minerId (paramString params 3 "") (conn.minerAddress.getD "")
        (paramBool params 4) := by
  rw [handleSubmit_of_not_stale c env requestId ha hm hs]
  exact oneSubmission_flag_share ..

/-- The spawned synchronization submits no block. -/
theorem oneSubmission_exchanges {c : Crates} {env : Env} {before : PoolState} {hash : String}
    {handled : Handled} {xs : List Exchange} (hxs : handled.Exchanges env before xs) :
    OneSubmission c hash xs ↔ OneSubmission c hash (before.exchangesSince env handled.pool) := by
  cases hxs with
  | alone => exact Iff.rfl
  | synchronized _ hown answer =>
    rw [hown]
    exact oneSubmission_insert (by simp [IsSubmission]) (by simp [IsMetReport])

/-- The exchanges of the handler alone decide. -/
theorem oneSubmission_handler_iff (c : Crates) (env : Env) (pool : PoolState) {conn : Connection}
    {minerId : String} (ha : conn.isAuthorized = true) (hm : conn.minerId = some minerId)
    (requestId : Value) (params : List Value) :
    OneSubmission c (paramString params 3 "")
        (pool.exchangesSince env (handleSubmit c env pool conn requestId params).pool) ↔
      Stale pool (paramString params 1 "0") ∨
        SubmitsOnce c env pool minerId (paramString params 3 "") (conn.minerAddress.getD "")
          (paramBool params 4) := by
  by_cases hs : Stale pool (paramString params 1 "0")
  · obtain ⟨error, hh⟩ := handleSubmit_of_stale c env requestId ha hm hs
    have hnil : pool.exchangesSince env pool = [] := Exchanged.exchangesSince_eq (.refl rfl)
    rw [hh, hnil]
    exact iff_of_true (oneSubmission_of_forall_not nofun) (.inl hs)
  · rw [oneSubmission_of_not_stale c env ha hm requestId hs, or_iff_right hs]

/-- A share of an authorized session submits at most one block, of a hash of 64 bytes that
meets the difficulty reported by the node, exactly if it is stale or submits one block. -/
theorem oneSubmission_iff (c : Crates) (env : Env) (pool : PoolState) {conn : Connection}
    {minerId : String} (ha : conn.isAuthorized = true) (hm : conn.minerId = some minerId)
    (requestId : Value) (params : List Value) {xs : List Exchange}
    (hxs : (handleSubmit c env pool conn requestId params).Exchanges env pool xs) :
    OneSubmission c (paramString params 3 "") xs ↔
      Stale pool (paramString params 1 "0") ∨
        SubmitsOnce c env pool minerId (paramString params 3 "") (conn.minerAddress.getD "")
          (paramBool params 4) := by
  rw [oneSubmission_exchanges hxs, oneSubmission_handler_iff c env pool ha hm]

end PoolState

/-! ### One share of the sample session -/

/-- A node that reports difficulty one. -/
def easyEnv : Env where
  answer _ := .response 200 (.ok (.object [("result", .number (.posInt 1))]))
  others _ work := work
  now _ := 1700000000
  uuid _ := "00000000-0000-4000-8000-000000000001"

/-- The parameters of a share with the largest hash. -/
def shareParams (isBlock : Bool) : List Value :=
  [.string sampleAddress, .string "1_1700000000_7", .string "7", .string largestHash, .bool isBlock]

theorem hash_shareParams (isBlock : Bool) : paramString (shareParams isBlock) 3 "" = largestHash :=
  rfl

theorem not_stale_shareParams (isBlock : Bool) :
    ¬Stale (samplePool 1) (paramString (shareParams isBlock) 1 "0") := by
  change ¬Stale (samplePool 1) "1_1700000000_7"
  decide

/-- The largest hash passes the checks of a block. -/
theorem submittable_largestHash : PoolState.Submittable sampleCrates largestHash sampleAddress :=
  ⟨_, hexDecode_largestHash, rfl, by decide, by decide, by decide⟩

/-- The largest hash meets difficulty one. -/
theorem meetsReport_largestHash (sent : Nat) :
    MeetsReport sampleCrates largestHash (easyEnv.answer sent) :=
  ⟨_, 1, hexDecode_largestHash, rfl, rfl, by decide, Nat.zero_le _⟩

/-- Without the flag, the block is submitted once. -/
theorem oneSubmission_iff_unflagged :
    OneSubmission sampleCrates largestHash ((samplePool 1).exchangesSince easyEnv
      (handleSubmit sampleCrates easyEnv (samplePool 1) sampleConnection .null
        (shareParams false)).pool) := by
  have hspawned : (handleSubmit sampleCrates easyEnv (samplePool 1) sampleConnection .null
      (shareParams false)).spawned = false := by
    rw [handleSubmit_of_not_stale sampleCrates easyEnv .null rfl rfl (not_stale_shareParams false)]
    rfl
  have h := PoolState.oneSubmission_iff sampleCrates easyEnv (samplePool 1)
    (show sampleConnection.isAuthorized = true from rfl) rfl .null (shareParams false)
    (.alone hspawned)
  rw [hash_shareParams] at h
  apply h.mpr
  right
  constructor
  · exact fun hf ↦ absurd hf.1 Bool.false_ne_true
  · exact fun _ _ ↦ .inl (meetsReport_largestHash _)

/-- With the flag, the same block is submitted twice. -/
theorem flagged_block_submitted_twice :
    ∃ xs, (handleSubmit sampleCrates easyEnv (samplePool 1) sampleConnection .null
        (shareParams true)).Exchanges easyEnv (samplePool 1) xs ∧
      ¬OneSubmission sampleCrates largestHash xs := by
  obtain ⟨xs, hxs⟩ := (handleSubmit sampleCrates easyEnv (samplePool 1) sampleConnection .null
    (shareParams true)).exists_exchanges easyEnv (samplePool 1)
  refine ⟨xs, hxs, ?_⟩
  rw [PoolState.oneSubmission_exchanges hxs]
  have hnetwork (sent : Nat) :
      PoolState.reportedDifficulty sampleCrates (samplePool 1).config (easyEnv.answer sent) = 1 :=
    rfl
  have hblock (sent : Nat) : PoolState.BlockSubmitted sampleCrates easyEnv (samplePool 1).config
      sent largestHash sampleAddress := by
    refine ⟨submittable_largestHash, ?_⟩
    rw [hnetwork]
    decide
  have hshare (sent : Nat) :
      PoolState.ShareSubmits sampleCrates easyEnv (samplePool 1) "miner" largestHash sent := by
    refine ⟨_, Finmap.lookup_singleton_eq, ⟨_, hexDecode_largestHash, ?_, ?_, ?_⟩, hblock _⟩
    · apply PoolState.validateShareDifficulty_iff.mpr
      exact ⟨_, hexDecode_largestHash, rfl, by decide, Nat.zero_le _⟩
    · rw [hnetwork]
      decide
    · rw [hnetwork]
      exact Nat.zero_le _
  have hways := PoolState.oneSubmission_of_not_stale sampleCrates easyEnv
    (show sampleConnection.isAuthorized = true from rfl) rfl .null (not_stale_shareParams true)
  rw [hash_shareParams] at hways
  rw [hways]
  intro h
  exact (h.1 ⟨rfl, hblock _⟩).2 (hshare _)

end SilverPow.Stratum
