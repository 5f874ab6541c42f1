import SilverPow.Mining.Accounting
import SilverPow.Stratum.Replays

/-!
# Shares submitted again to either pool

`MiningPool::submit_share` keeps every share that it accepts, but looks only at the
difficulty and the age of the next one, `src/mining_pool.rs:329–373`. As in the Stratum pool,
a share that passes is credited each time.
-/

namespace SilverPow.Mining

open SilverPow.Base MiningPool

/-- What tells a share from the others. -/
structure ShareKey where
  minerId : Bytes
  workId : Bytes
  nonce : U64
  extraNonce : U64
  hashResult : Bytes
  deriving DecidableEq

/-- What tells a share from the others. -/
def MinerShare.key (share : MinerShare) : ShareKey :=
  ⟨share.minerId, share.workId, share.nonce, share.extraNonce, share.hashResult⟩

/-- The share that a call submits. -/
def Call.share : Call → Option MinerShare
  | .submitShare share => some share
  | _ => none

/-- The share that a call submits, by what tells it from the others. -/
def Event.share (e : Event) : Option ShareKey := e.call.share.map (·.key)

namespace MiningPool

/-- A share is difficult enough and not too old. -/
def Passes (s : MiningPool) (now : U64) (share : MinerShare) : Bool :=
  s.config.minShareDifficulty ≤ share.difficulty && now ≤ share.timestamp + 3600

/-- The share of a call, if it passes the checks. -/
def passing (s : MiningPool) (e : Event) : Option ShareKey :=
  (e.call.share.filter (s.Passes e.now)).map (·.key)

/-- The shares of a run that pass the checks when they are submitted, in order. -/
def passingShares (config : PoolConfig) (es : List Event) : List ShareKey :=
  Run.collect step passing (.new config) es

/-- Number of different shares that a miner submits. -/
def distinctShares (es : List Event) (minerId : Bytes) : Nat :=
  ((es.filterMap (·.share)).filter (·.minerId = minerId)).dedup.length

/-- No miner is credited for more shares than it submitted different ones, neither in the
list of shares nor in its account. -/
structure PaidOnce (es : List Event) (s : MiningPool) : Prop where
  shares : ∀ minerId, (s.getMinerShares minerId).length ≤ distinctShares es minerId
  account : ∀ minerId account, s.minerAccounts.lookup minerId = some account →
    account.totalShares.toNat ≤ distinctShares es minerId

/-- The shares that pass are those that are accepted. -/
theorem map_key_acceptedShare (s : MiningPool) (e : Event) :
    (s.outcome e).acceptedShare.map (·.key) = passing s e := by
  unfold outcome passing Passes
  cases e.call with
  | submitShare share =>
    simp only [Call.share, submitShare, Option.filter_some]
    generalize share.timestamp + 3600 = limit
    by_cases hd : share.difficulty < s.config.minShareDifficulty
    · simp [hd, Outcome.acceptedShare, BitVec.not_le.mpr hd]
    · by_cases ht : limit < e.now
      · simp [hd, ht, Outcome.acceptedShare, BitVec.not_le.mpr ht]
      · simp [hd, ht, Outcome.acceptedShare, BitVec.not_lt.mp hd, BitVec.not_lt.mp ht]
  | unregisterMiner minerId => rfl
  | registerMiner minerId minerAddress =>
    dsimp only
    split <;> rfl
  | processPayout minerAddress amount =>
    dsimp only
    split <;> rfl

/-- In every run the list of shares is that of the shares that passed. -/
theorem map_key_shares {config : PoolConfig} {es : List Event} {s : MiningPool}
    (h : PoolRun config es s) : s.shares.map (·.key) = passingShares config es := by
  rw [(shareBooks_of_run h).shares]
  induction h with
  | nil => rfl
  | @snoc es s s' e hr hs ih =>
    rw [outcomes_concat hr, acceptedShares_concat, List.map_append, ih, passingShares,
      passingShares, Run.collect_concat (fun _ _ _ ↦ id) _ hr, ← map_key_acceptedShare,
      Option.toList_map]

/-- A miner is credited in the list for its shares that passed. -/
theorem length_getMinerShares {config : PoolConfig} {es : List Event} {s : MiningPool}
    (h : PoolRun config es s) (minerId : Bytes) : (s.getMinerShares minerId).length =
      ((passingShares config es).filter (·.minerId = minerId)).length := by
  rw [← map_key_shares h, List.filter_map, List.length_map, getMinerShares]
  apply congrArg
  apply List.filter_congr
  intro share _
  apply Bool.eq_iff_iff.mpr
  simp [MinerShare.key]

/-- A miner is credited in its account at most for its shares in the list. -/
theorem totalShares_le_getMinerShares {config : PoolConfig} {es : List Event} {s : MiningPool}
    (h : PoolRun config es s) {minerId : Bytes} {account : MinerAccount}
    (hl : s.minerAccounts.lookup minerId = some account) :
    account.totalShares.toNat ≤ (s.getMinerShares minerId).length := by
  have hbooks := shareBooks_of_run h
  rw [hbooks.account minerId account hl, BitVec.toNat_ofNat, getMinerShares, hbooks.shares]
  exact (Nat.mod_le _ _).trans (acceptedSince_le minerId (outcomes config es))

/-- A share that passes is a share that was submitted. -/
theorem share_of_passing (s : MiningPool) (e : Event) (share : ShareKey)
    (h : passing s e = some share) : e.share = some share := by
  obtain ⟨submitted, hs, hkey⟩ := Option.map_eq_some_iff.mp h
  rw [Event.share, (Option.filter_eq_some_iff.mp hs).1, ← hkey]
  rfl

/-- In a run in which no share passes again, no state on the way credits a miner for more
shares than it submitted different ones. -/
theorem paidOnce_of_nodup {config : PoolConfig} {es : List Event}
    (h : (passingShares config es).Nodup) :
    Run.Always (fun s e s' ↦ s' = s.step e) (.new config) PaidOnce es := by
  have hlist := Run.always_le_distinct share_of_passing
    (fun _ _ hr minerId ↦ (length_getMinerShares hr minerId).le) h
  intro es' s hp hr
  constructor
  · exact hlist es' s hp hr
  · intro minerId account hl
    exact (totalShares_le_getMinerShares hr hl).trans (hlist es' s hp hr minerId)

end MiningPool

/-! ### Both pools -/

/-- Neither pool credits a miner for more shares than it submitted different ones, in any
state of a run in which no share passes again. -/
theorem shares_paidOnce (c : Stratum.Crates) (r : Stratum.Registration) (env : Stratum.Env)
    (stratum : Stratum.PoolConfig) (calls : List Stratum.PoolEvent) (config : PoolConfig)
    (es : List Event) :
    ((Stratum.PoolState.passingShares c r env stratum calls).Nodup →
      Run.Always (fun pool e pool' ↦ pool' = Stratum.PoolState.step c r pool e) (.new env stratum)
        Stratum.PoolState.PaidOnce calls) ∧
    ((passingShares config es).Nodup →
      Run.Always (fun s e s' ↦ s' = MiningPool.step s e) (.new config) PaidOnce es) := by
  constructor
  · exact Stratum.PoolState.paidOnce_of_nodup
  · exact paidOnce_of_nodup

/-- A share of the miner with some nonce and difficulty. -/
def sampleShare (nonce difficulty : U64) : MinerShare :=
  ⟨[1], [], nonce, 0, List.replicate 64 0, difficulty, 5, false, 0, 100⟩

/-- A miner submits one share twice. -/
def replayEvents : List Event :=
  [⟨.registerMiner [1] [7], 5⟩, ⟨.submitShare (sampleShare 7 2_000), 6⟩,
    ⟨.submitShare (sampleShare 7 2_000), 7⟩]

/-- A miner submits two shares, and twice one that is too easy. -/
def distinctEvents : List Event :=
  [⟨.registerMiner [1] [7], 5⟩, ⟨.submitShare (sampleShare 7 2_000), 6⟩,
    ⟨.submitShare (sampleShare 8 2_000), 7⟩, ⟨.submitShare (sampleShare 9 1), 8⟩,
    ⟨.submitShare (sampleShare 9 1), 9⟩]

/-- Each pool credits each of two shares once, and one that is refused twice not at all. -/
theorem shares_paidOnce_single :
    Run.Always (fun pool e pool' ↦ pool' = Stratum.PoolState.step Stratum.sampleCrates
        Stratum.PoolState.sampleRegistration pool e)
      (.new Stratum.sampleEnv ⟨"http://localhost:8332", 1000⟩) Stratum.PoolState.PaidOnce
      Stratum.PoolState.distinctEvents ∧
    Run.Always (fun s e s' ↦ s' = MiningPool.step s e) (.new .new) PaidOnce distinctEvents := by
  have h := shares_paidOnce Stratum.sampleCrates Stratum.PoolState.sampleRegistration
    Stratum.sampleEnv ⟨"http://localhost:8332", 1000⟩ Stratum.PoolState.distinctEvents .new
    distinctEvents
  constructor
  · exact h.1 (Stratum.PoolState.nodup_passingShares
      Stratum.PoolState.nodup_readable_distinctEvents)
  · exact h.2 (by decide)

/-- Both pools credit a share twice that is submitted twice. -/
theorem replayed_share_credited_twice :
    let stratum := Stratum.PoolState.replayEvents.foldl
      (Stratum.PoolState.step Stratum.sampleCrates Stratum.PoolState.sampleRegistration)
      Stratum.PoolState.startedPool
    let mining := replayEvents.foldl MiningPool.step (.new .new)
    (Stratum.PoolState.SessionRun Stratum.sampleCrates Stratum.PoolState.sampleRegistration
        Stratum.sampleEnv ⟨"http://localhost:8332", 1000⟩ Stratum.PoolState.replayEvents stratum ∧
      ¬Stratum.PoolState.PaidOnce Stratum.PoolState.replayEvents stratum) ∧
    PoolRun .new replayEvents mining ∧ ¬PaidOnce replayEvents mining := by
  intro stratum mining
  refine ⟨⟨Run.foldl _ _ _, Stratum.PoolState.not_paidOnce_replayEvents⟩, Run.foldl _ _ _, ?_⟩
  intro h
  have hcredited : (mining.getMinerShares [1]).length = 2 := by decide
  have hdistinct : distinctShares replayEvents [1] = 1 := by decide
  have hle := h.shares [1]
  omega

end SilverPow.Mining
