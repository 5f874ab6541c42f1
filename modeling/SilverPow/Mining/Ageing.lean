import SilverPow.Mining.Pool

/-!
# The age of shares

`submit_share` adds an hour to the timestamp of a share before it looks at the clock, and
`clear_old_shares` subtracts the timestamps of the stored shares from the clock. Both are plain
operations on words: the first overflows for timestamps near the largest word, and the second
underflows for shares from the future, which `submit_share` lets in. A build with overflow
checks stops there; the checked functions below are `none` where it does.
-/

namespace SilverPow.Mining

open SilverPow.Base

/-- A counter that is not at its largest value. -/
def Counts (counter : U64) : Prop := counter.toNat + 1 < 2 ^ 64

/-- `+= 1` with an overflow check. -/
def increment (counter : U64) : Option U64 := Word.checkedAdd counter 1

theorem increment_of_counts {counter : U64} (h : Counts counter) :
    increment counter = some (counter + 1) := if_pos h

theorem increment_of_not_counts {counter : U64} (h : ¬ Counts counter) :
    increment counter = none := if_neg h

theorem counts_of_increment {counter counter' : U64} (h : increment counter = some counter') :
    Counts counter := by
  by_contra hc
  rw [increment_of_not_counts hc] at h
  cases h

/-- `Vec::retain` with a test that may stop the program. -/
def retain {α : Type} (keep : α → Option Bool) : List α → Option (List α)
  | [] => some []
  | x :: xs => do
    let kept ← keep x
    let rest ← retain keep xs
    return if kept then x :: rest else rest

/-- If the test stops for no element, `retain` is a filter; otherwise it stops. -/
theorem retain_eq_some_iff {α : Type} {keep : α → Option Bool} {p : α → Bool}
    (hp : ∀ x b, keep x = some b → b = p x) (xs : List α) :
    retain keep xs = some (xs.filter p) ↔ ∀ x ∈ xs, (keep x).isSome = true := by
  induction xs with
  | nil => simp [retain]
  | cons x xs ih =>
    rw [retain, List.forall_mem_cons, ← ih]
    cases hk : keep x with
    | none => simp
    | some b =>
      rw [List.filter_cons, ← hp x b hk]
      cases retain keep xs with
      | none => simp
      | some rest => cases b <;> simp

namespace MiningPool

/-- `clear_old_shares`, `src/mining_pool.rs:518–528`. -/
def clearOldShares (s : MiningPool) (maxAgeSeconds now : U64) : MiningPool :=
  { s with shares := s.shares.filter fun share ↦ now - share.timestamp ≤ maxAgeSeconds }

/-- The test of `clear_old_shares`, with overflow checks. -/
def keepChecked (maxAgeSeconds now : U64) (share : MinerShare) : Option Bool :=
  (Word.checkedSub now share.timestamp).map fun age ↦ decide (age ≤ maxAgeSeconds)

/-- `clear_old_shares` with overflow checks. -/
def clearOldSharesChecked (s : MiningPool) (maxAgeSeconds now : U64) : Option MiningPool := do
  let shares ← retain (keepChecked maxAgeSeconds now) s.shares
  return { s with shares }

/-- What a refused share changes, with overflow checks. -/
def rejectShareChecked (s : MiningPool) : Option MiningPool := do
  let sharesRejected ← increment s.stats.sharesRejected
  return { s with stats := { s.stats with sharesRejected } }

/-- The counter of blocks after a share, with overflow checks. -/
def blocksFoundChecked (s : MiningPool) (share : MinerShare) : Option U64 :=
  if share.isBlock then increment s.stats.blocksFound else some s.stats.blocksFound

/-- The account of the miner after a share, with overflow checks. -/
def addShareChecked (s : MiningPool) (minerId : Bytes) (now : U64) :
    Option (Table Bytes MinerAccount) :=
  match s.minerAccounts.lookup minerId with
  | some account =>
    (increment account.totalShares).map fun totalShares ↦
      s.minerAccounts.insert minerId { account with totalShares, lastShareTime := now }
  | none => some s.minerAccounts

/-- What an accepted share changes, with overflow checks; the atomic counter of all shares
wraps in every build. -/
def acceptShareChecked (s : MiningPool) (share : MinerShare) (now : U64) :
    Option MiningPool := do
  let blocksFound ← s.blocksFoundChecked share
  let sharesAccepted ← increment s.stats.sharesAccepted
  let minerAccounts ← s.addShareChecked share.minerId now
  return { s with
    stats := { s.stats with blocksFound, sharesAccepted }
    totalShares := s.totalShares + 1
    minerAccounts
    shares := s.shares ++ [share] }

/-- `submit_share` with overflow checks. -/
def submitShareChecked (s : MiningPool) (share : MinerShare) (now : U64) :
    Option (Except String Bool × MiningPool) :=
  if share.difficulty < s.config.minShareDifficulty then do
    return (.error "Share difficulty too low", ← s.rejectShareChecked)
  else do
    let limit ← Word.checkedAdd share.timestamp 3600
    if limit < now then return (.error "Share too old", ← s.rejectShareChecked)
    else return (.ok share.isBlock, ← s.acceptShareChecked share now)

/-! ### When nothing overflows -/

section Fits

variable (s : MiningPool) (share : MinerShare) (now : U64)

/-- The counters that a refused share is counted in have room for it. -/
def RejectFits : Prop := Counts s.stats.sharesRejected

/-- The counters that an accepted share is counted in have room for it. -/
structure AcceptFits : Prop where
  blocksFound : share.isBlock = true → Counts s.stats.blocksFound
  sharesAccepted : Counts s.stats.sharesAccepted
  account : ∀ account, s.minerAccounts.lookup share.minerId = some account →
    Counts account.totalShares

/-- The limit of a share that is difficult enough is a word, and the counters have room. -/
def SubmitFits : Prop :=
  if share.difficulty < s.config.minShareDifficulty then s.RejectFits
  else share.timestamp.toNat + 3600 < 2 ^ 64 ∧
    if share.timestamp.toNat + 3600 < now.toNat then s.RejectFits else s.AcceptFits share

theorem rejectShareChecked_eq_iff :
    s.rejectShareChecked = some s.rejectShare ↔ s.RejectFits := by
  by_cases h : Counts s.stats.sharesRejected
  · simp [rejectShareChecked, increment_of_counts h, rejectShare, RejectFits, h]
  · simp [rejectShareChecked, increment_of_not_counts h, RejectFits, h]

theorem acceptShareChecked_of_fits (h : s.AcceptFits share) :
    s.acceptShareChecked share now = some (s.acceptShare share now) := by
  have hblocks : s.blocksFoundChecked share =
      some (if share.isBlock then s.stats.blocksFound + 1 else s.stats.blocksFound) := by
    unfold blocksFoundChecked
    split
    · next hb => exact increment_of_counts (h.blocksFound hb)
    · rfl
  have haccounts : s.addShareChecked share.minerId now =
      some (s.minerAccounts.modify share.minerId (.addShare now)) := by
    unfold addShareChecked Table.modify
    cases hl : s.minerAccounts.lookup share.minerId with
    | none => rfl
    | some account =>
      dsimp only
      rw [increment_of_counts (h.account account hl)]
      rfl
  rw [acceptShareChecked, hblocks, increment_of_counts h.sharesAccepted, haccounts]
  rfl

theorem fits_of_acceptShareChecked {s' : MiningPool}
    (h : s.acceptShareChecked share now = some s') : s.AcceptFits share := by
  simp only [acceptShareChecked, Option.bind_eq_bind, Option.bind_eq_some_iff] at h
  obtain ⟨blocksFound, hblocks, sharesAccepted, haccepted, minerAccounts, haccounts, -⟩ := h
  constructor
  · intro hb
    rw [blocksFoundChecked, if_pos hb] at hblocks
    exact counts_of_increment hblocks
  · exact counts_of_increment haccepted
  · intro account hl
    rw [addShareChecked, hl] at haccounts
    obtain ⟨totalShares, htotal, -⟩ := Option.map_eq_some_iff.mp haccounts
    exact counts_of_increment htotal

/-- A call replies from the state that it leads to. -/
theorem reply_eq_some_iff (result : Except String Bool) (next : Option MiningPool)
    (s' : MiningPool) :
    (do return (result, ← next) : Option (Except String Bool × MiningPool)) =
      some (result, s') ↔ next = some s' := by
  cases next with
  | none => simp
  | some s => simp

/-- A submission overflows nowhere exactly when it fits. -/
theorem submitShareChecked_eq_iff :
    s.submitShareChecked share now = some (s.submitShare share now) ↔
      s.SubmitFits share now := by
  have haccept : s.acceptShareChecked share now = some (s.acceptShare share now) ↔
      s.AcceptFits share :=
    ⟨fits_of_acceptShareChecked s share now, acceptShareChecked_of_fits s share now⟩
  unfold submitShareChecked submitShare SubmitFits
  split
  · rw [← rejectShareChecked_eq_iff]
    exact reply_eq_some_iff _ _ _
  · by_cases ht : share.timestamp.toNat + 3600 < 2 ^ 64
    · have hlimit : (share.timestamp + 3600).toNat = share.timestamp.toNat + 3600 := by
        rw [BitVec.toNat_add]
        exact Nat.mod_eq_of_lt ht
      have hold : share.timestamp + 3600 < now ↔ share.timestamp.toNat + 3600 < now.toNat := by
        rw [BitVec.lt_def, hlimit]
      rw [Word.checkedAdd_of_lt ht, ← rejectShareChecked_eq_iff, ← haccept]
      simp only [Option.bind_eq_bind, Option.bind_some, hold, ht, true_and]
      split
      · exact reply_eq_some_iff _ _ _
      · exact reply_eq_some_iff _ _ _
    · have hnone : Word.checkedAdd share.timestamp 3600 = none := if_neg ht
      rw [hnone, Option.bind_eq_bind, Option.bind_none]
      exact iff_of_false (nomatch ·) fun h ↦ ht h.1

end Fits

/-! ### When nothing underflows -/

section Clear

variable (s : MiningPool) (maxAgeSeconds now : U64)

/-- A share is at most so old, in numbers without a bound. -/
def Young (share : MinerShare) : Prop :=
  now.toNat ≤ share.timestamp.toNat + maxAgeSeconds.toNat

instance : DecidablePred (Young maxAgeSeconds now) := fun share ↦
  inferInstanceAs (Decidable (now.toNat ≤ share.timestamp.toNat + maxAgeSeconds.toNat))

/-- Clearing underflows for no share, and keeps exactly the young ones. -/
def ClearsExactly : Prop :=
  s.clearOldSharesChecked maxAgeSeconds now =
    some { s with shares := s.shares.filter (Young maxAgeSeconds now) }

/-- No stored share is from the future. -/
def NoneFromFuture : Prop := ∀ share ∈ s.shares, share.timestamp ≤ now

theorem isSome_keepChecked_iff (share : MinerShare) :
    (keepChecked maxAgeSeconds now share).isSome = true ↔ share.timestamp ≤ now := by
  rw [keepChecked, Option.isSome_map, Word.checkedSub, BitVec.le_def]
  split
  · next h => simp [h]
  · next h => simp [h]

/-- Without an underflow, the test keeps the young shares. -/
theorem eq_young_of_keepChecked (share : MinerShare) (b : Bool)
    (h : keepChecked maxAgeSeconds now share = some b) :
    b = decide (Young maxAgeSeconds now share) := by
  have hle := (isSome_keepChecked_iff maxAgeSeconds now share).mp (Option.isSome_of_eq_some h)
  rw [keepChecked, Word.checkedSub_of_le (BitVec.le_def.mp hle)] at h
  cases h
  rw [BitVec.le_def] at hle
  rw [decide_eq_decide, BitVec.le_def, BitVec.toNat_sub_of_le (BitVec.le_def.mpr hle), Young]
  omega

/-- Clearing is exact when no share is from the future, and only then. -/
theorem clearsExactly_iff : ClearsExactly s maxAgeSeconds now ↔ NoneFromFuture s now := by
  have hretain := retain_eq_some_iff (eq_young_of_keepChecked maxAgeSeconds now) s.shares
  simp only [isSome_keepChecked_iff] at hretain
  rw [NoneFromFuture, ← hretain, ClearsExactly, clearOldSharesChecked]
  cases retain (keepChecked maxAgeSeconds now) s.shares with
  | none => simp
  | some shares => simp

/-- A build without overflow checks clears the same shares then. -/
theorem clearOldShares_eq (h : NoneFromFuture s now) :
    s.clearOldShares maxAgeSeconds now =
      { s with shares := s.shares.filter (Young maxAgeSeconds now) } := by
  rw [clearOldShares]
  congr 1
  refine List.filter_congr fun share hs ↦ ?_
  have hle := h share hs
  rw [decide_eq_decide, BitVec.le_def, BitVec.toNat_sub_of_le hle, Young]
  rw [BitVec.le_def] at hle
  omega

end Clear

end MiningPool

/-! ### Runs -/

/-- A call on the pool, or the clearing of old shares. -/
inductive AgeingCall where
  | pool (call : Call)
  | clearOldShares (maxAgeSeconds : U64)

/-- A call with the clock reading that it takes. -/
structure AgeingEvent where
  call : AgeingCall
  now : U64

namespace MiningPool

/-- The pool after a call. -/
def ageingStep (s : MiningPool) (e : AgeingEvent) : MiningPool :=
  match e.call with
  | .pool call => s.step ⟨call, e.now⟩
  | .clearOldShares maxAgeSeconds => s.clearOldShares maxAgeSeconds e.now

/-- The states that a pool reaches, with the calls on the way. -/
abbrev AgeingRun (config : PoolConfig) : List AgeingEvent → MiningPool → Prop :=
  Run (fun s e s' ↦ s' = s.ageingStep e) (.new config)

/-- The arithmetic of a call is safe: a submission does not overflow, and clearing is exact. -/
def Safe (s : MiningPool) (e : AgeingEvent) : Prop :=
  match e.call with
  | .pool (.submitShare share) =>
    s.submitShareChecked share e.now = some (s.submitShare share e.now)
  | .pool _ => True
  | .clearOldShares maxAgeSeconds => s.ClearsExactly maxAgeSeconds e.now

/-- A submission fits, and what is cleared is not from the future. -/
def InTime (s : MiningPool) (e : AgeingEvent) : Prop :=
  match e.call with
  | .pool (.submitShare share) => s.SubmitFits share e.now
  | .pool _ => True
  | .clearOldShares _ => s.NoneFromFuture e.now

/-- A call is safe exactly when it is in time. -/
theorem safe_iff_inTime (s : MiningPool) (e : AgeingEvent) : Safe s e ↔ InTime s e := by
  obtain ⟨call, now⟩ := e
  cases call with
  | pool call =>
    cases call with
    | submitShare share => exact submitShareChecked_eq_iff s share now
    | _ => exact Iff.rfl
  | clearOldShares maxAgeSeconds => exact clearsExactly_iff s maxAgeSeconds now

/-- All calls of a run are safe exactly when each is in time in the state before it. -/
theorem run_safe_iff_inTime {config : PoolConfig} {es : List AgeingEvent} {s : MiningPool} :
    Run (Guarded Safe fun s e s' ↦ s' = s.ageingStep e) (.new config) es s ↔
      Run (Guarded InTime fun s e s' ↦ s' = s.ageingStep e) (.new config) es s := by
  constructor
  · exact Run.mono fun s e s' h ↦ ⟨(safe_iff_inTime s e).mp h.1, h.2⟩
  · exact Run.mono fun s e s' h ↦ ⟨(safe_iff_inTime s e).mpr h.1, h.2⟩

/-! ### The counters of a run -/

/-- No counter is above a number. -/
structure CountersLe (n : Nat) (s : MiningPool) : Prop where
  sharesRejected : s.stats.sharesRejected.toNat ≤ n
  sharesAccepted : s.stats.sharesAccepted.toNat ≤ n
  blocksFound : s.stats.blocksFound.toNat ≤ n
  account : ∀ minerId account, s.minerAccounts.lookup minerId = some account →
    account.totalShares.toNat ≤ n

theorem toNat_add_one_le {counter : U64} {n : Nat} (h : counter.toNat ≤ n) :
    (counter + 1).toNat ≤ n + 1 := by
  rw [BitVec.toNat_add]
  exact (Nat.mod_le _ _).trans (Nat.add_le_add_right h 1)

theorem CountersLe.mono {n n' : Nat} {s : MiningPool} (h : CountersLe n s) (hn : n ≤ n') :
    CountersLe n' s :=
  ⟨h.sharesRejected.trans hn, h.sharesAccepted.trans hn, h.blocksFound.trans hn,
    fun minerId account hl ↦ (h.account minerId account hl).trans hn⟩

/-- A call raises every counter by at most one. -/
theorem CountersLe.effect {n : Nat} {s s' : MiningPool} {o : Outcome} (h : CountersLe n s)
    (he : Effect s o s') : CountersLe (n + 1) s' := by
  have hm := h.mono (Nat.le_add_right n 1)
  cases he with
  | @registered minerId minerAddress now _ hl =>
    refine ⟨hm.sharesRejected, hm.sharesAccepted, hm.blocksFound, ?_⟩
    apply Table.forall_lookup_insert
    · exact Nat.zero_le _
    · exact fun a account _ hl ↦ hm.account a account hl
  | unregistered =>
    refine ⟨hm.sharesRejected, hm.sharesAccepted, hm.blocksFound, ?_⟩
    exact Table.forall_lookup_erase fun a account _ hl ↦ hm.account a account hl
  | @accepted share now =>
    refine ⟨hm.sharesRejected, toNat_add_one_le h.sharesAccepted, ?_, ?_⟩
    · rw [acceptShare]
      dsimp only
      split
      · exact toNat_add_one_le h.blocksFound
      · exact hm.blocksFound
    · apply Table.forall_lookup_modify
      · exact fun account hl ↦ toNat_add_one_le (h.account _ account hl)
      · exact fun a account _ hl ↦ hm.account a account hl
  | rejected =>
    exact ⟨toNat_add_one_le h.sharesRejected, hm.sharesAccepted, hm.blocksFound, hm.account⟩
  | paid =>
    refine ⟨hm.sharesRejected, hm.sharesAccepted, hm.blocksFound, ?_⟩
    apply Table.forall_lookup_modify
    · exact fun account hl ↦ hm.account _ account hl
    · exact fun a account _ hl ↦ hm.account a account hl
  | refused => exact hm

/-- No counter is above the number of calls. -/
theorem countersLe_of_run {config : PoolConfig} {es : List AgeingEvent} {s : MiningPool}
    (h : AgeingRun config es s) : CountersLe es.length s := by
  refine Run.historyInvariant (fun es s ↦ CountersLe es.length s) ?_ ?_ h
  · exact ⟨Nat.le_refl 0, Nat.le_refl 0, Nat.le_refl 0, fun _ _ hl ↦ nomatch hl⟩
  · rintro es s ⟨call, now⟩ s' hi rfl
    rw [List.length_append, List.length_singleton]
    cases call with
    | pool call => exact hi.effect (effect_step s ⟨call, now⟩)
    | clearOldShares maxAgeSeconds =>
      have hm := hi.mono (Nat.le_add_right es.length 1)
      exact ⟨hm.sharesRejected, hm.sharesAccepted, hm.blocksFound, hm.account⟩

/-- Before `2 ^ 64` calls, only the timestamps matter. -/
theorem submitFits_iff_of_run {config : PoolConfig} {es : List AgeingEvent} {s : MiningPool}
    (h : AgeingRun config es s) (hn : es.length + 1 < 2 ^ 64) (share : MinerShare) (now : U64) :
    s.SubmitFits share now ↔
      (s.config.minShareDifficulty ≤ share.difficulty →
        share.timestamp.toNat + 3600 < 2 ^ 64) := by
  have hc := countersLe_of_run h
  have hcounts {counter : U64} (hle : counter.toNat ≤ es.length) : Counts counter := by
    unfold Counts
    omega
  have hreject : s.RejectFits := hcounts hc.sharesRejected
  have haccept : s.AcceptFits share :=
    ⟨fun _ ↦ hcounts hc.blocksFound, hcounts hc.sharesAccepted,
      fun account hl ↦ hcounts (hc.account _ account hl)⟩
  unfold SubmitFits
  by_cases hd : share.difficulty < s.config.minShareDifficulty
  · simp [hd, hreject, ← BitVec.not_lt]
  · rw [if_neg hd]
    simp [hreject, haccept, BitVec.not_lt.mp hd]

/-! ### A share from the future -/

/-- A share that `MinerShareBuilder::build` lets through, with a timestamp. -/
def shareAt (timestamp : U64) : MinerShareBuilder :=
  { MinerShare.builder [1] [] (List.replicate 64 0) 0 with difficulty := 1_000, timestamp }

/-- The largest timestamp overflows in the submission. A share that is ten seconds early is
accepted, and makes the next clearing underflow; without overflow checks, the clearing drops
the share. -/
theorem ageing_unsafe :
    (shareAt (BitVec.allOnes 64)).build = .ok (shareAt (BitVec.allOnes 64)) ∧
      submitShareChecked (.new .new) (shareAt (BitVec.allOnes 64)) 1000 = none ∧
      (shareAt 1010).build = .ok (shareAt 1010) ∧
      (submitShare (.new .new) (shareAt 1010) 1000).1 = .ok false ∧
      clearOldSharesChecked (submitShare (.new .new) (shareAt 1010) 1000).2 3600 1000 = none ∧
      (clearOldShares (submitShare (.new .new) (shareAt 1010) 1000).2 3600 1000).shares = [] := by
  refine ⟨rfl, rfl, rfl, rfl, rfl, rfl⟩

end MiningPool
end SilverPow.Mining
