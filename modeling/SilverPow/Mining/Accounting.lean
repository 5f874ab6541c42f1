import SilverPow.Mining.Pool

/-!
# The share counters of a mining pool

Five counters and a list are updated over the three exits of `submit_share`. Each counter
is, as a word, the number of outcomes that it counts, so that no bound on the length of a
run is needed; below 2⁶⁴ submissions it is that number.
-/

namespace SilverPow.Mining

open SilverPow.Base MiningPool

/-- Whether a call submits a share. -/
def Call.isSubmitShare : Call → Bool
  | .submitShare _ => true
  | _ => false

/-- Number of `submit_share` calls. -/
def submitCalls (es : List Event) : Nat := es.countP (·.call.isSubmitShare)

namespace Outcome

/-- The share that was accepted. -/
def acceptedShare : Outcome → Option MinerShare
  | .accepted share => some share
  | _ => none

/-- Whether a share was refused. -/
def isRejected : Outcome → Bool
  | .rejected => true
  | _ => false

/-- Whether a miner was registered. -/
def registers (minerId : Bytes) : Outcome → Bool
  | .registered id _ => id == minerId
  | _ => false

/-- Whether a share of a miner was accepted. -/
def accepts (minerId : Bytes) : Outcome → Bool
  | .accepted share => share.minerId == minerId
  | _ => false

end Outcome

/-- The accepted shares, in order. -/
def acceptedShares (log : List Outcome) : List MinerShare := log.filterMap (·.acceptedShare)

/-- Number of accepted shares of a miner since its latest registration. -/
def acceptedSince (minerId : Bytes) (log : List Outcome) : Nat :=
  (log.reverse.takeWhile fun o ↦ !o.registers minerId).countP (·.accepts minerId)

/-- The counters of a pool, against the outcomes of its calls. -/
structure ShareBooks (log : List Outcome) (s : MiningPool) : Prop where
  shares : s.shares = acceptedShares log
  accepted : s.stats.sharesAccepted = BitVec.ofNat 64 s.shares.length
  total : s.totalShares = BitVec.ofNat 64 s.shares.length
  rejected : s.stats.sharesRejected = BitVec.ofNat 64 (log.countP (·.isRejected))
  blocks : s.stats.blocksFound = BitVec.ofNat 64 (s.shares.countP (·.isBlock))
  account : ∀ minerId account, s.minerAccounts.lookup minerId = some account →
    account.totalShares = BitVec.ofNat 64 (acceptedSince minerId log)

/-! ### One outcome more -/

/-- An outcome counts towards a miner unless it starts its count again. -/
theorem acceptedSince_concat (minerId : Bytes) (log : List Outcome) (o : Outcome) :
    acceptedSince minerId (log ++ [o]) =
      if o.registers minerId then 0
      else acceptedSince minerId log + if o.accepts minerId then 1 else 0 := by
  simp only [acceptedSince, List.reverse_append, List.reverse_singleton, List.singleton_append,
    List.takeWhile_cons, Bool.not_eq_true']
  cases h : o.registers minerId with
  | true => simp
  | false => simp [List.countP_cons]

/-- An accepted share joins the list. -/
theorem acceptedShares_concat (log : List Outcome) (o : Outcome) :
    acceptedShares (log ++ [o]) = acceptedShares log ++ o.acceptedShare.toList := by
  rw [acceptedShares, List.filterMap_append, acceptedShares]
  cases h : o.acceptedShare <;> simp [h]

/-- No miner has more shares since its registration than it has at all. -/
theorem acceptedSince_le (minerId : Bytes) (log : List Outcome) :
    acceptedSince minerId log ≤ ((acceptedShares log).filter (·.minerId == minerId)).length := by
  induction log using List.reverseRecOn with
  | nil => exact Nat.le_refl 0
  | append_singleton log o ih =>
    rw [acceptedSince_concat, acceptedShares_concat, List.filter_append, List.length_append]
    split
    · exact Nat.zero_le _
    · cases o with
      | accepted share =>
        simp only [Outcome.acceptedShare, Outcome.accepts, Option.toList_some]
        by_cases hid : (share.minerId == minerId) = true
        · simpa [hid] using ih
        · simpa [hid] using ih
      | _ => simpa [Outcome.acceptedShare, Outcome.accepts] using ih

/-- An accepted share counts towards its own miner. -/
theorem acceptedSince_accepted (minerId : Bytes) (log : List Outcome) (share : MinerShare) :
    acceptedSince minerId (log ++ [.accepted share]) =
      acceptedSince minerId log + if share.minerId = minerId then 1 else 0 := by
  simp [acceptedSince_concat, Outcome.registers, Outcome.accepts]

/-- A submission has one of two outcomes, and no other call has them. -/
theorem countP_outcome (s : MiningPool) (e : Event) :
    (s.outcome e).acceptedShare.toList.length + [s.outcome e].countP (·.isRejected) =
      [e].countP (·.call.isSubmitShare) := by
  cases hc : e.call with
  | submitShare share =>
    cases hr : (s.submitShare share e.now).1 <;>
      simp [outcome, hc, hr, Outcome.acceptedShare, Outcome.isRejected, Call.isSubmitShare]
  | unregisterMiner minerId =>
    simp [outcome, hc, Outcome.acceptedShare, Outcome.isRejected, Call.isSubmitShare]
  | registerMiner minerId minerAddress =>
    cases hr : (s.registerMiner minerId minerAddress e.now).1 <;>
      simp [outcome, hc, hr, Outcome.acceptedShare, Outcome.isRejected, Call.isSubmitShare]
  | processPayout minerAddress amount =>
    cases hr : (s.processPayout minerAddress amount).1 <;>
      simp [outcome, hc, hr, Outcome.acceptedShare, Outcome.isRejected, Call.isSubmitShare]

/-- Every submission is accepted or refused. -/
theorem submitCalls_eq {config : PoolConfig} {es : List Event} {s : MiningPool}
    (h : PoolRun config es s) : submitCalls es =
      (acceptedShares (outcomes config es)).length +
        (outcomes config es).countP (·.isRejected) := by
  induction h with
  | nil => rfl
  | @snoc es s s' e hr _ ih =>
    have ho := countP_outcome s e
    rw [submitCalls] at ih ⊢
    rw [outcomes_concat hr, acceptedShares_concat, List.countP_append, List.countP_append,
      List.length_append, ih]
    omega

/-! ### Every call keeps the books -/

/-- A pool without shares. -/
theorem shareBooks_new (config : PoolConfig) : ShareBooks [] (.new config) where
  shares := rfl
  accepted := rfl
  total := rfl
  rejected := rfl
  blocks := rfl
  account minerId account hl := by cases hl

/-- What is no share and no registration counts nowhere. -/
theorem ShareBooks.concat {log : List Outcome} {s : MiningPool} (h : ShareBooks log s)
    {o : Outcome} (hr : ∀ minerId, o.registers minerId = false)
    (ha : o.acceptedShare = none) (hj : o.isRejected = false) : ShareBooks (log ++ [o]) s := by
  have haccepts (minerId : Bytes) : o.accepts minerId = false := by
    cases o with
    | accepted share => cases ha
    | _ => rfl
  refine ⟨?_, h.accepted, h.total, ?_, h.blocks, fun minerId account hl ↦ ?_⟩
  · rw [acceptedShares_concat, ha, Option.toList_none, List.append_nil, h.shares]
  · rw [List.countP_append, List.countP_singleton, hj, h.rejected]
    rfl
  · rw [acceptedSince_concat, hr, haccepts, h.account minerId account hl]
    rfl

/-- An accepted share is counted in all the books. -/
theorem ShareBooks.accept {log : List Outcome} {s : MiningPool} (h : ShareBooks log s)
    (share : MinerShare) (now : U64) :
    ShareBooks (log ++ [.accepted share]) (s.acceptShare share now) := by
  have hlength : (s.shares ++ [share]).length = s.shares.length + 1 := List.length_append
  refine ⟨?_, ?_, ?_, ?_, ?_, ?_⟩
  · rw [acceptedShares_concat, ← h.shares]
    rfl
  · change s.stats.sharesAccepted + 1 = BitVec.ofNat 64 (s.shares ++ [share]).length
    rw [hlength, BitVec.ofNat_add, h.accepted]
    rfl
  · change s.totalShares + 1 = BitVec.ofNat 64 (s.shares ++ [share]).length
    rw [hlength, BitVec.ofNat_add, h.total]
    rfl
  · rw [List.countP_append]
    exact h.rejected
  · change (if share.isBlock then s.stats.blocksFound + 1 else s.stats.blocksFound) =
      BitVec.ofNat 64 ((s.shares ++ [share]).countP (·.isBlock))
    rw [List.countP_append, List.countP_singleton, h.blocks]
    split
    · rw [BitVec.ofNat_add]
      rfl
    · rfl
  · -- Only the account of the share's miner counts it, and only that miner's number grows.
    apply Table.forall_lookup_modify
    · intro account hl
      rw [acceptedSince_accepted, if_pos rfl, MinerAccount.addShare, h.account _ account hl]
      exact (BitVec.ofNat_add _ _).symm
    · intro a account ha hl
      rw [acceptedSince_accepted, if_neg (Ne.symm ha)]
      exact h.account a account hl

/-- Every call keeps the books. -/
theorem ShareBooks.effect {log : List Outcome} {s s' : MiningPool} {o : Outcome}
    (h : ShareBooks log s) (he : Effect s o s') : ShareBooks (log ++ [o]) s' := by
  cases he with
  | @registered minerId minerAddress now hlt hl =>
    refine ⟨?_, h.accepted, h.total, ?_, h.blocks, ?_⟩
    · rw [acceptedShares_concat]
      exact h.shares.trans (List.append_nil _).symm
    · rw [List.countP_append]
      exact h.rejected
    · apply Table.forall_lookup_insert
      · rw [acceptedSince_concat, Outcome.registers, if_pos (beq_self_eq_true _)]
        rfl
      · intro a account ha hl
        rw [acceptedSince_concat, Outcome.registers, if_neg (by simpa using Ne.symm ha)]
        exact h.account a account hl
  | @unregistered minerId =>
    have hc := h.concat (o := .unregistered minerId) (fun _ ↦ rfl) rfl rfl
    exact ⟨hc.shares, hc.accepted, hc.total, hc.rejected, hc.blocks,
      Table.forall_lookup_erase fun a account _ hl ↦ hc.account a account hl⟩
  | @accepted share now _ _ => exact h.accept share now
  | rejected =>
    refine ⟨?_, h.accepted, h.total, ?_, h.blocks, fun a account hl ↦ ?_⟩
    · rw [acceptedShares_concat]
      exact h.shares.trans (List.append_nil _).symm
    · change s.stats.sharesRejected + 1 = _
      rw [List.countP_append, h.rejected]
      exact (BitVec.ofNat_add _ _).symm
    · rw [acceptedSince_concat]
      exact h.account a account hl
  | @paid minerAddress amount _ _ =>
    have hc := h.concat (o := .paid minerAddress amount) (fun _ ↦ rfl) rfl rfl
    refine ⟨hc.shares, hc.accepted, hc.total, hc.rejected, hc.blocks, ?_⟩
    exact Table.forall_lookup_modify (fun account hl ↦ hc.account _ account hl)
      fun a account _ hl ↦ hc.account a account hl
  | refused => exact h.concat (fun _ ↦ rfl) rfl rfl

/-- The books hold in every run of a pool. -/
theorem shareBooks_of_run {config : PoolConfig} {es : List Event} {s : MiningPool}
    (h : PoolRun config es s) : ShareBooks (outcomes config es) s :=
  outcomes_invariant ShareBooks (shareBooks_new config) (fun _ _ _ _ hi he ↦ hi.effect he) h

/-- A share that is refused changes the counter of refused shares only. -/
theorem submitShare_error {s : MiningPool} {share : MinerShare} {now : U64} {e : String}
    (h : (s.submitShare share now).1 = .error e) : (s.submitShare share now).2 = s.rejectShare := by
  unfold submitShare at h ⊢
  split
  · rfl
  · next hd =>
    rw [if_neg hd] at h
    split
    · rfl
    · next ht =>
      rw [if_neg ht] at h
      cases h

/-- What the counters of a pool say after a run. -/
structure SharesAccounted (config : PoolConfig) (es : List Event) (s : MiningPool) : Prop where
  shares : s.shares = acceptedShares (outcomes config es)
  accepted : s.stats.sharesAccepted = BitVec.ofNat 64 s.shares.length
  total : s.stats.sharesAccepted = s.totalShares
  submitted : s.stats.sharesAccepted + s.stats.sharesRejected = BitVec.ofNat 64 (submitCalls es)
  blocks : s.stats.blocksFound = BitVec.ofNat 64 (s.shares.countP (·.isBlock))
  account : ∀ minerId account, s.minerAccounts.lookup minerId = some account →
    account.totalShares = BitVec.ofNat 64 (acceptedSince minerId (outcomes config es))
  rejected : ∀ share now e, (s.submitShare share now).1 = .error e →
    (s.submitShare share now).2 =
      { s with stats := { s.stats with sharesRejected := s.stats.sharesRejected + 1 } }
  /-- No word has wrapped before 2⁶⁴ submissions. -/
  exact : submitCalls es < 2 ^ 64 →
    s.stats.sharesAccepted.toNat = s.shares.length ∧
      s.totalShares.toNat = s.shares.length ∧
      s.stats.sharesAccepted.toNat + s.stats.sharesRejected.toNat = submitCalls es ∧
      s.stats.blocksFound.toNat = s.shares.countP (·.isBlock) ∧
      ∀ minerId account, s.minerAccounts.lookup minerId = some account →
        account.totalShares.toNat = acceptedSince minerId (outcomes config es)

/-- In every run the counters are the numbers of the outcomes that they count. -/
theorem sharesAccounted_of_run {config : PoolConfig} {es : List Event} {s : MiningPool}
    (h : PoolRun config es s) : SharesAccounted config es s := by
  have hb := shareBooks_of_run h
  have hcalls := submitCalls_eq h
  rw [← hb.shares] at hcalls
  refine ⟨hb.shares, hb.accepted, hb.accepted.trans hb.total.symm, ?_, hb.blocks, hb.account,
    fun _ _ _ ↦ submitShare_error, fun hlt ↦ ?_⟩
  · rw [hcalls, BitVec.ofNat_add, hb.accepted, hb.rejected]
  · have hvalue {n : Nat} (hn : n ≤ submitCalls es) : (BitVec.ofNat 64 n).toNat = n := by
      rw [BitVec.toNat_ofNat, Nat.mod_eq_of_lt (by omega)]
    have hblocks : s.shares.countP (·.isBlock) ≤ s.shares.length := List.countP_le_length
    rw [hb.accepted, hb.total, hb.rejected, hb.blocks, hvalue (by omega), hvalue (by omega),
      hvalue (by omega)]
    refine ⟨rfl, rfl, hcalls.symm, rfl, fun minerId account hl ↦ ?_⟩
    have hle := (acceptedSince_le minerId (outcomes config es)).trans (List.length_filter_le ..)
    rw [← hb.shares] at hle
    rw [hb.account minerId account hl, hvalue (by omega)]

/-- A miner with two shares, of which one is too easy, that leaves and comes back. -/
theorem sharesAccounted_of_return :
    let share (difficulty : U64) : MinerShare :=
      ⟨[1], [], 7, 0, List.replicate 64 0, difficulty, 5, true, 0, 100⟩
    let es : List Event := [⟨.registerMiner [1] [7], 5⟩, ⟨.submitShare (share 2_000), 6⟩,
      ⟨.submitShare (share 1), 7⟩, ⟨.unregisterMiner [1], 8⟩, ⟨.registerMiner [1] [7], 9⟩]
    SharesAccounted .new es (es.foldl step (.new .new)) :=
  sharesAccounted_of_run (Run.foldl _ _ _)

end SilverPow.Mining
