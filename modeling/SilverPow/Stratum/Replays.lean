import SilverPow.Stratum.Sessions

/-!
# Shares submitted again

`PoolState::submit_share` looks at the hash of a share alone and keeps no record of the
shares before, `src/stratum_pool.rs:373–425`. A share that passes the check of its session
is credited each time it is submitted.
-/

namespace SilverPow.Stratum

open SilverPow.Base

/-- What tells a share from the others. -/
structure ShareKey where
  minerId : String
  nonce : U64
  hash : String
  deriving DecidableEq

/-- The share that a call submits. -/
def PoolEvent.share (e : PoolEvent) : Option ShareKey :=
  match e.call with
  | .registerMiner _ => none
  | .submitShare minerId nonce hash => some ⟨minerId, nonce, hash⟩

namespace PoolState

/-- A share passes the check of its session. -/
def Passes (c : Crates) (pool : PoolState) (share : ShareKey) : Bool :=
  (pool.miners.lookup share.minerId).any fun miner ↦
    validateShareDifficulty c share.hash miner.difficulty

/-- The share of a call, if it passes the check. -/
def passing (c : Crates) (pool : PoolState) (e : PoolEvent) : Option ShareKey :=
  e.share.filter (Passes c pool)

/-- The shares of a run that pass the check when they are submitted, in order. -/
def passingShares (c : Crates) (r : Registration) (env : Env) (config : PoolConfig)
    (es : List PoolEvent) : List ShareKey :=
  Run.collect (step c r) (passing c) (.new env config) es

/-- Number of shares credited to a miner: the valid shares of its session. -/
def creditedShares (pool : PoolState) (minerId : String) : Nat :=
  Table.valueAt (·.validShares.toNat) pool.miners minerId

/-- Number of different shares that a miner submits. -/
def distinctShares (es : List PoolEvent) (minerId : String) : Nat :=
  ((es.filterMap (·.share)).filter (·.minerId = minerId)).dedup.length

/-- No miner is credited for more shares than it submitted different ones. -/
def PaidOnce (es : List PoolEvent) (pool : PoolState) : Prop :=
  ∀ minerId, pool.creditedShares minerId ≤ distinctShares es minerId

section Credit

variable (c : Crates) (r : Registration) (pool : PoolState)

/-- A registration credits no share. -/
theorem creditedShares_registerMiner (env : Env) (address minerId : String) :
    (pool.registerMiner r env address).2.creditedShares minerId ≤ pool.creditedShares minerId := by
  unfold registerMiner creditedShares
  split
  · exact Nat.le_refl _
  · dsimp only
    rw [Table.valueAt_insert]
    split
    · exact Nat.zero_le _
    · exact Nat.le_refl _

/-- A submission credits at most its own share, and only if it passes. -/
theorem creditedShares_submitShare (env : Env) (share : ShareKey) (minerId : String) :
    (pool.submitShare c env share.minerId share.nonce share.hash).2.creditedShares minerId ≤
      pool.creditedShares minerId +
        if Passes c pool share ∧ share.minerId = minerId then 1 else 0 := by
  unfold Passes creditedShares
  cases hm : pool.miners.lookup share.minerId with
  | none =>
    rw [submitShare_of_none c env share.nonce share.hash hm]
    exact Nat.le_add_right _ _
  | some miner =>
    have hbooks := congrArg Prod.fst (books_submitShare c env share.nonce share.hash hm)
    have hvalue : Table.valueAt (·.validShares.toNat) pool.miners share.minerId =
        miner.validShares.toNat := by rw [Table.valueAt, hm, Option.elim_some]
    have hone : (miner.validShares + 1).toNat ≤ miner.validShares.toNat + 1 := by
      rw [BitVec.toNat_add]
      exact Nat.mod_le _ _
    cases hv : validateShareDifficulty c share.hash miner.difficulty with
    | false =>
      simp only [books, hv, Bool.false_eq_true, if_false, rejectShare] at hbooks
      rw [hbooks, Table.valueAt_insert]
      apply Nat.le_add_right_of_le
      split
      · next hid => rw [hid, hvalue]
      · exact Nat.le_refl _
    | true =>
      simp only [books, hv, if_true, creditShare] at hbooks
      rw [hbooks, Table.valueAt_insert]
      split
      · next hid => simpa [hid, hvalue, hv] using hone
      · exact Nat.le_add_right _ _

/-- A call credits at most the share that it submits, and only if it passes. -/
theorem creditedShares_step (e : PoolEvent) (minerId : String) :
    (pool.step c r e).creditedShares minerId ≤
      pool.creditedShares minerId +
        ((passing c pool e).toList.filter (·.minerId = minerId)).length := by
  unfold step passing PoolEvent.share
  cases e.call with
  | registerMiner address =>
    exact (creditedShares_registerMiner r pool e.env address minerId).trans (Nat.le_add_right _ _)
  | submitShare id nonce hash =>
    apply (creditedShares_submitShare c pool e.env ⟨id, nonce, hash⟩ minerId).trans
    rw [Option.filter_some]
    by_cases hp : Passes c pool ⟨id, nonce, hash⟩ = true
    · by_cases hid : id = minerId
      · subst hid
        simp [hp]
      · simp [hid]
    · simp [hp]

end Credit

/-- In every run, a miner is credited at most for its shares that passed. -/
theorem creditedShares_le_passing {c : Crates} {r : Registration} {env : Env}
    {config : PoolConfig} {es : List PoolEvent} {pool : PoolState}
    (h : SessionRun c r env config es pool) (minerId : String) :
    pool.creditedShares minerId ≤
      ((passingShares c r env config es).filter (·.minerId = minerId)).length := by
  induction h with
  | nil => exact Nat.le_refl 0
  | @snoc es pool pool' e hr hs ih =>
    subst hs
    apply (creditedShares_step c r pool e minerId).trans
    rw [passingShares, Run.collect_concat (fun _ _ _ ↦ id) _ hr, List.filter_append,
      List.length_append]
    exact Nat.add_le_add_right ih _

/-- A share that passes is a share that was submitted. -/
theorem share_of_passing {c : Crates} (pool : PoolState) (e : PoolEvent) (share : ShareKey)
    (h : passing c pool e = some share) : e.share = some share :=
  (Option.filter_eq_some_iff.mp h).1

/-- In a run in which no share passes again, no state on the way credits a miner for more
shares than it submitted different ones. -/
theorem paidOnce_of_nodup {c : Crates} {r : Registration} {env : Env} {config : PoolConfig}
    {es : List PoolEvent} (h : (passingShares c r env config es).Nodup) :
    Run.Always (fun pool e pool' ↦ pool' = pool.step c r e) (.new env config) PaidOnce es :=
  Run.always_le_distinct share_of_passing (fun _ _ ↦ creditedShares_le_passing) h

/-- The share of a call, if its hash can be read. -/
def readable (c : Crates) (e : PoolEvent) : Option ShareKey :=
  e.share.filter fun share ↦ (c.hexDecode share.hash).isOk

theorem readable_submitShare (c : Crates) (env : Env) (minerId hash : String) (nonce : U64) :
    readable c ⟨.submitShare minerId nonce hash, env⟩ =
      if (c.hexDecode hash).isOk then some ⟨minerId, nonce, hash⟩ else none :=
  Option.filter_some

/-- Only a share whose hash can be read passes. -/
theorem readable_of_passing {c : Crates} (pool : PoolState) (e : PoolEvent) (share : ShareKey)
    (h : passing c pool e = some share) : readable c e = some share := by
  obtain ⟨hshare, hpasses⟩ := Option.filter_eq_some_iff.mp h
  unfold Passes at hpasses
  cases hm : pool.miners.lookup share.minerId with
  | none =>
    rw [hm] at hpasses
    cases hpasses
  | some miner =>
    rw [hm] at hpasses
    obtain ⟨hashBytes, hd, -⟩ := validateShareDifficulty_iff.mp hpasses
    exact Option.filter_eq_some_iff.mpr ⟨hshare, by rw [hd]; rfl⟩

/-- In particular, a run in which no share with a hash that can be read is submitted again. -/
theorem nodup_passingShares {c : Crates} {r : Registration} {env : Env} {config : PoolConfig}
    {es : List PoolEvent} (h : (es.filterMap (readable c)).Nodup) :
    (passingShares c r env config es).Nodup :=
  h.sublist (Run.collect_sublist readable_of_passing _ _)

/-! ### One share, twice -/

/-- A share that passes adds one to the valid shares of its session. -/
theorem lookup_step_of_passes {c : Crates} (r : Registration) {pool : PoolState} {e : PoolEvent}
    {minerId hash : String} {nonce : U64} {miner : MinerSession}
    (hc : e.call = .submitShare minerId nonce hash) (hm : pool.miners.lookup minerId = some miner)
    (hv : validateShareDifficulty c hash miner.difficulty = true) :
    ∃ miner', (pool.step c r e).miners.lookup minerId = some miner' ∧
      miner'.difficulty = miner.difficulty ∧ miner'.validShares = miner.validShares + 1 := by
  have hbooks := congrArg Prod.fst (books_submitShare c e.env nonce hash hm)
  simp only [books, hv, if_true, creditShare] at hbooks
  rw [step, hc]
  dsimp only
  rw [hbooks, Finmap.lookup_insert]
  exact ⟨_, rfl, rfl, rfl⟩

/-- A registered miner submits two shares, and twice one with a hash that cannot be read. -/
def distinctEvents : List PoolEvent :=
  [registerEvent, shareEvent, ⟨.submitShare (sampleEnv.uuid 0) 8 largestHash, sampleEnv⟩,
    ⟨.submitShare (sampleEnv.uuid 0) 9 "zz", sampleEnv⟩,
    ⟨.submitShare (sampleEnv.uuid 0) 9 "zz", sampleEnv⟩]

/-- Those that can be read are different. -/
theorem nodup_readable_distinctEvents :
    (distinctEvents.filterMap (readable sampleCrates)).Nodup := by
  have hread (nonce : U64) :
      readable sampleCrates ⟨.submitShare (sampleEnv.uuid 0) nonce largestHash, sampleEnv⟩ =
        some ⟨sampleEnv.uuid 0, nonce, largestHash⟩ := by
    rw [readable_submitShare, if_pos]
    rw [hexDecode_largestHash]
    rfl
  have hunread : readable sampleCrates ⟨.submitShare (sampleEnv.uuid 0) 9 "zz", sampleEnv⟩ = none :=
    (readable_submitShare ..).trans (if_neg (by decide))
  rw [distinctEvents, List.filterMap_cons_none (by rfl), shareEvent,
    List.filterMap_cons_some (hread 7), List.filterMap_cons_some (hread 8),
    List.filterMap_cons_none hunread, List.filterMap_cons_none hunread, List.filterMap_nil]
  exact List.nodup_cons.mpr ⟨by simp, List.nodup_singleton _⟩

/-- A registered miner submits one share twice. -/
def replayEvents : List PoolEvent := [registerEvent, shareEvent, shareEvent]

/-- The largest hash passes the difficulty of the session. -/
theorem validateShareDifficulty_largestHash :
    validateShareDifficulty sampleCrates largestHash 1 = true :=
  validateShareDifficulty_iff.mpr ⟨_, hexDecode_largestHash, rfl, by decide, Nat.zero_le _⟩

/-- The share is credited twice. -/
theorem not_paidOnce_replayEvents :
    ¬PaidOnce replayEvents
      (replayEvents.foldl (step sampleCrates sampleRegistration) startedPool) := by
  have hregistered : (startedPool.step sampleCrates sampleRegistration registerEvent).miners.lookup
      (sampleEnv.uuid 0) = some
        (newSession sampleRegistration (sampleEnv.uuid 0) registeredAddress 1700000000) := by
    rw [miners_registered, Finmap.lookup_insert]
  obtain ⟨first, hfirst, hdifficulty, hone⟩ := lookup_step_of_passes sampleRegistration
    (show shareEvent.call = _ from rfl) hregistered validateShareDifficulty_largestHash
  have hvalid : validateShareDifficulty sampleCrates largestHash first.difficulty = true := by
    rw [hdifficulty]
    exact validateShareDifficulty_largestHash
  obtain ⟨second, hsecond, -, htwo⟩ := lookup_step_of_passes sampleRegistration
    (show shareEvent.call = _ from rfl) hfirst hvalid
  have hcredited : (replayEvents.foldl (step sampleCrates sampleRegistration)
      startedPool).creditedShares (sampleEnv.uuid 0) = 2 := by
    rw [replayEvents, List.foldl_cons, List.foldl_cons, List.foldl_cons, List.foldl_nil,
      creditedShares, Table.valueAt]
    rw [hsecond, Option.elim_some, htwo, hone]
    rfl
  have hdistinct : distinctShares replayEvents (sampleEnv.uuid 0) = 1 := by
    simp [distinctShares, replayEvents, PoolEvent.share, registerEvent, shareEvent]
  intro h
  have hle := h (sampleEnv.uuid 0)
  omega

end PoolState
end SilverPow.Stratum
