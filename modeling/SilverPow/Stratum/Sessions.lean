import SilverPow.Base.Run
import SilverPow.Stratum.Agreement
import SilverPow.Stratum.Requests

/-!
# The sessions of the pool

`src/stratum_pool.rs:99–125`, `286–346`, `911–925`: the start of a pool, registration and
the statistics. `submit_share` counts every share in its session and every valid share in
the total of valid shares. The total of all shares is reported, but nothing counts it.
-/

namespace SilverPow.Stratum

open SilverPow.Base

/-- What a registration uses besides the state: `min_difficulty` of the configuration,
`char::is_alphanumeric` and `bs58::decode`. -/
structure Registration where
  minDifficulty : U64
  isAlphanumeric : Char → Bool
  base58Decode : String → Option Bytes

/-- `PoolStats`, `src/stratum_pool.rs:975–983`. -/
structure PoolStats where
  connectedMiners : Nat
  totalShares : U64
  totalValidShares : U64
  totalHashrate : U64
  poolDifficulty : U64

namespace PoolState

/-- `PoolState::new`, `src/stratum_pool.rs:99–125`. -/
def new (env : Env) (config : PoolConfig) : PoolState where
  miners := ∅
  currentWork :=
    { id := env.uuid 0
      header := String.ofList (List.replicate 160 '0')
      target := String.ofList (List.replicate 64 '0')
      height := 1
      timestamp := env.now 0 }
  config
  httpClient := []
  totalShares := 0
  totalValidShares := 0

/-- `validate_miner_address`, `src/stratum_pool.rs:321–346`. -/
def validateMinerAddress (r : Registration) (address : String) : Bool :=
  if ¬"SLVR".toList <+: address.toList then false
  else if address.utf8ByteSize < 86 ∨ 92 < address.utf8ByteSize then false
  else if ¬address.toList.all r.isAlphanumeric then false
  else match r.base58Decode (String.ofList (address.toList.drop 4)) with
    | some decoded => decoded.length = 64
    | none => false

/-- `MinerSession` of a registration, `src/stratum_pool.rs:301–311`; the hashrate is the
float zero. -/
def newSession (r : Registration) (minerId address : String) (now : U64) : MinerSession :=
  ⟨minerId, address, r.minDifficulty, 0, 0, 0, now, now, 0⟩

/-- `register_miner`, `src/stratum_pool.rs:286–318`. -/
def registerMiner (r : Registration) (env : Env) (pool : PoolState) (address : String) :
    Except String String × PoolState :=
  if ¬validateMinerAddress r address then
    (.error (s!"Invalid miner address format: {address} " ++
      "(must be 512-bit SLVR address, 90-92 characters)"), pool)
  else
    let minerId := env.uuid pool.httpClient.length
    let session := newSession r minerId address (env.now pool.httpClient.length)
    (.ok minerId, { pool with miners := pool.miners.insert minerId session })

/-- `get_pool_stats`, `src/stratum_pool.rs:911–925`, with the float sum of the hashrates in
the order of the table. -/
def getPoolStats (sumHashrates : Table String MinerSession → U64) (pool : PoolState) :
    PoolStats where
  connectedMiners := pool.miners.entries.card
  totalShares := pool.totalShares
  totalValidShares := pool.totalValidShares
  totalHashrate := sumHashrates pool.miners
  poolDifficulty := pool.config.poolDifficulty

end PoolState

/-! ### Runs -/

/-- A call on the pool. -/
inductive PoolCall where
  | registerMiner (address : String)
  | submitShare (minerId : String) (nonce : U64) (hash : String)

/-- A call with what the pool reads from outside while it runs. -/
structure PoolEvent where
  call : PoolCall
  env : Env

namespace PoolState

/-- The pool after a call. -/
def step (c : Crates) (r : Registration) (pool : PoolState) (e : PoolEvent) : PoolState :=
  match e.call with
  | .registerMiner address => (pool.registerMiner r e.env address).2
  | .submitShare minerId nonce hash => (pool.submitShare c e.env minerId nonce hash).2

/-- The states that a pool reaches, with the calls on the way. -/
abbrev SessionRun (c : Crates) (r : Registration) (env : Env) (config : PoolConfig) :
    List PoolEvent → PoolState → Prop :=
  Run (fun pool e pool' ↦ pool' = pool.step c r e) (.new env config)

/-- Each session's shares are its valid and its invalid ones, and the statistics report the
sums over all sessions. -/
structure TotalsMatch (pool : PoolState) : Prop where
  session : ∀ minerId miner, pool.miners.lookup minerId = some miner →
    miner.shares = miner.validShares + miner.invalidShares
  shares : ∀ sumHashrates, (pool.getPoolStats sumHashrates).totalShares.toNat =
    pool.miners.total (·.shares.toNat)
  validShares : ∀ sumHashrates, (pool.getPoolStats sumHashrates).totalValidShares.toNat =
    pool.miners.total (·.validShares.toNat)

/-- A call does not submit a share of a registered miner. -/
def CountsNoShare (pool : PoolState) (e : PoolEvent) : Prop :=
  ∀ minerId nonce hash, e.call = .submitShare minerId nonce hash →
    pool.miners.lookup minerId = none

/-! ### What a submission counts -/

section Submit

variable (c : Crates) (env : Env) {pool : PoolState} {minerId : String} (nonce : U64)
  (hash : String)

/-- A miner without a session changes nothing. -/
theorem submitShare_of_none (h : pool.miners.lookup minerId = none) :
    pool.submitShare c env minerId nonce hash = (.error "Miner not found", pool) := by
  rw [submitShare, h]

variable {miner : MinerSession} (h : pool.miners.lookup minerId = some miner)
include h

/-- An invalid share is counted as such. -/
theorem submitShare_of_invalid (hv : validateShareDifficulty c hash miner.difficulty = false) :
    pool.submitShare c env minerId nonce hash = (.ok false, pool.rejectShare minerId miner) := by
  simp [submitShare, h, hv]

/-- A valid share is counted, and submitted as a block if it is a candidate for one. -/
theorem submitShare_of_valid (hv : validateShareDifficulty c hash miner.difficulty = true) :
    (pool.submitShare c env minerId nonce hash).2 =
      let credited := pool.creditShare c minerId miner (env.now pool.httpClient.length)
      let checked := credited.isBlockCandidate c env hash
      if checked.1 then (checked.2.submitBlockToNode c env hash miner.address).2
      else checked.2 := by
  simp only [submitShare, h, hv, if_true]
  split
  · next p hp => simp [hp]
  · next p hp =>
    simp only [hp, if_true]
    split
    · next hs => simp [hs]
    · next hs => simp [hs]

/-- Whatever becomes of the block, a share changes its own session and the totals only. -/
theorem books_submitShare :
    (pool.submitShare c env minerId nonce hash).2.books =
      if validateShareDifficulty c hash miner.difficulty then
        (pool.creditShare c minerId miner (env.now pool.httpClient.length)).books
      else (pool.rejectShare minerId miner).books := by
  split
  · next hv =>
    rw [submitShare_of_valid c env nonce hash h hv]
    dsimp only
    split
    · rw [(frame_submitBlockToNode ..).1, (frame_isBlockCandidate ..).1]
    · rw [(frame_isBlockCandidate ..).1]
  · next hv => rw [submitShare_of_invalid c env nonce hash h (Bool.eq_false_of_not_eq_true hv)]

end Submit

/-- What a call changes in the sessions and the counters. -/
inductive Counted (pool : PoolState) (e : PoolEvent) :
    Table String MinerSession × U64 × U64 → Prop
  | unchanged : CountsNoShare pool e → Counted pool e pool.books
  | registered {minerId : String} {r : Registration} {address : String} {now : U64} :
      CountsNoShare pool e → Counted pool e
        (pool.miners.insert minerId (newSession r minerId address now), pool.totalShares,
          pool.totalValidShares)
  | valid {minerId : String} {miner miner' : MinerSession} :
      ¬CountsNoShare pool e → pool.miners.lookup minerId = some miner →
      miner'.shares = miner.shares + 1 → miner'.validShares = miner.validShares + 1 →
      miner'.invalidShares = miner.invalidShares → Counted pool e
        (pool.miners.insert minerId miner', pool.totalShares, pool.totalValidShares + 1)
  | invalid {minerId : String} {miner miner' : MinerSession} :
      ¬CountsNoShare pool e → pool.miners.lookup minerId = some miner →
      miner'.shares = miner.shares + 1 → miner'.validShares = miner.validShares →
      miner'.invalidShares = miner.invalidShares + 1 → Counted pool e
        (pool.miners.insert minerId miner', pool.totalShares, pool.totalValidShares)

/-- Every call changes the sessions and the counters in one of these ways. -/
theorem counted_step (c : Crates) (r : Registration) (pool : PoolState) (e : PoolEvent) :
    Counted pool e (pool.step c r e).books := by
  unfold step
  cases hc : e.call with
  | registerMiner address =>
    have hn : CountsNoShare pool e := fun _ _ _ h ↦ by cases hc.symm.trans h
    dsimp only [registerMiner]
    split
    · exact .unchanged hn
    · exact .registered hn
  | submitShare minerId nonce hash =>
    dsimp only
    cases hm : pool.miners.lookup minerId with
    | none =>
      rw [submitShare_of_none c e.env nonce hash hm]
      refine .unchanged fun _ _ _ h ↦ ?_
      cases hc.symm.trans h
      exact hm
    | some miner =>
      have hn : ¬CountsNoShare pool e := fun h ↦ by cases (h _ _ _ hc).symm.trans hm
      rw [books_submitShare c e.env nonce hash hm]
      split
      · exact .valid hn hm rfl rfl rfl
      · exact .invalid hn hm rfl rfl rfl

/-! ### When the totals match -/

/-- No share has been counted anywhere. -/
structure Idle (pool : PoolState) : Prop where
  totalShares : pool.totalShares = 0
  totalValidShares : pool.totalValidShares = 0
  session : ∀ minerId miner, pool.miners.lookup minerId = some miner →
    miner.shares = 0 ∧ miner.validShares = 0 ∧ miner.invalidShares = 0

/-- A new pool has counted nothing. -/
theorem idle_new (env : Env) (config : PoolConfig) : Idle (.new env config) :=
  ⟨rfl, rfl, fun minerId miner hl ↦ by cases hl⟩

/-- While no share has been counted, all totals are zero. -/
theorem totalsMatch_of_idle {pool : PoolState} (h : Idle pool) : TotalsMatch pool := by
  have hsum {f : MinerSession → U64}
      (hf : ∀ minerId miner, pool.miners.lookup minerId = some miner → f miner = 0) :
      pool.miners.total (fun miner ↦ (f miner).toNat) = 0 := by
    apply Table.total_eq_zero
    intro minerId
    cases hl : pool.miners.lookup minerId with
    | none => rw [Table.valueAt, hl, Option.elim_none]
    | some miner => rw [Table.valueAt, hl, Option.elim_some, hf minerId miner hl]; rfl
  constructor
  · intro minerId miner hl
    simp [h.session minerId miner hl]
  · intro sumHashrates
    rw [getPoolStats, h.totalShares, hsum fun minerId miner hl ↦ (h.session minerId miner hl).1]
    rfl
  · intro sumHashrates
    rw [getPoolStats, h.totalValidShares,
      hsum fun minerId miner hl ↦ (h.session minerId miner hl).2.1]
    rfl

/-- A call that counts no share leaves a pool without counted shares. -/
theorem idle_step {c : Crates} {r : Registration} {pool : PoolState} {e : PoolEvent}
    (h : Idle pool) (hn : CountsNoShare pool e) : Idle (pool.step c r e) := by
  have hc := counted_step c r pool e
  generalize hb : (pool.step c r e).books = books at hc
  cases hc with
  | unchanged =>
    obtain ⟨hm, ht, hv⟩ := books_eq hb
    exact ⟨ht ▸ h.totalShares, hv ▸ h.totalValidShares, hm ▸ h.session⟩
  | registered =>
    obtain ⟨hm, ht, hv⟩ := books_eq hb
    refine ⟨ht ▸ h.totalShares, hv ▸ h.totalValidShares, ?_⟩
    rw [hm]
    exact Table.forall_lookup_insert ⟨rfl, rfl, rfl⟩ fun a miner _ hl ↦ h.session a miner hl
  | valid hne => exact absurd hn hne
  | invalid hne => exact absurd hn hne

/-- The first share that is counted makes the sum of the shares 1, and the total stays 0. -/
theorem countsNoShare_of_totalsMatch {c : Crates} {r : Registration} {pool : PoolState}
    {e : PoolEvent} (h : Idle pool) (ht : TotalsMatch (pool.step c r e)) :
    CountsNoShare pool e := by
  have hone {minerId : String} {miner miner' : MinerSession}
      (hl : pool.miners.lookup minerId = some miner) (hs : miner'.shares = miner.shares + 1)
      (hm : (pool.step c r e).miners = pool.miners.insert minerId miner')
      (htotal : (pool.step c r e).totalShares = pool.totalShares) : False := by
    have hsum := Table.total_insert (·.shares.toNat) pool.miners minerId miner'
    have hbefore := (totalsMatch_of_idle h).shares fun _ ↦ 0
    have hafter := ht.shares fun _ ↦ 0
    have hnew : miner'.shares.toNat = 1 := by
      rw [hs, (h.session minerId miner hl).1]
      rfl
    have hzero : (0 : U64).toNat = 0 := rfl
    simp only [getPoolStats, htotal, hm, h.totalShares] at hbefore hafter
    rw [Table.valueAt, hl, Option.elim_some, (h.session minerId miner hl).1] at hsum
    omega
  have hc := counted_step c r pool e
  generalize hb : (pool.step c r e).books = books at hc
  cases hc with
  | unchanged hn => exact hn
  | registered hn => exact hn
  | valid _ hl hs =>
    obtain ⟨hm, htotal, -⟩ := books_eq hb
    exact (hone hl hs hm htotal).elim
  | invalid _ hl hs =>
    obtain ⟨hm, htotal, -⟩ := books_eq hb
    exact (hone hl hs hm htotal).elim

/-- In a run the totals match in every state exactly if no share of a registered miner is
submitted. -/
theorem totalsMatch_iff {c : Crates} {r : Registration} {env : Env} {config : PoolConfig}
    {es : List PoolEvent} {pool : PoolState} (h : SessionRun c r env config es pool) :
    Run.Always (fun pool e pool' ↦ pool' = pool.step c r e) (.new env config)
        (fun _ ↦ TotalsMatch) es ↔
      Run (Guarded CountsNoShare fun pool e pool' ↦ pool' = pool.step c r e) (.new env config)
        es pool := by
  apply Run.always_iff_guarded (fun _ _ _ ↦ id) (I := fun _ ↦ True) (K := Idle) trivial
    (idle_new env config)
  · exact fun _ _ _ _ _ ↦ trivial
  · rintro pool e pool' - hi hn rfl
    exact idle_step hi hn
  · exact fun _ _ ↦ totalsMatch_of_idle
  · rintro pool e pool' - hi rfl ht
    exact countsNoShare_of_totalsMatch hi ht
  · exact h

/-! ### What does hold -/

/-- In every run each session's shares are its valid and its invalid ones. -/
theorem session_shares_of_run {c : Crates} {r : Registration} {env : Env} {config : PoolConfig}
    {es : List PoolEvent} {pool : PoolState} (h : SessionRun c r env config es pool) :
    ∀ minerId miner, pool.miners.lookup minerId = some miner →
      miner.shares = miner.validShares + miner.invalidShares := by
  refine h.invariant (fun pool ↦ ∀ minerId miner, pool.miners.lookup minerId = some miner →
    miner.shares = miner.validShares + miner.invalidShares) (fun _ _ hl ↦ by cases hl) ?_
  rintro pool e pool' hi rfl
  have hc := counted_step c r pool e
  generalize hb : (pool.step c r e).books = books at hc
  cases hc with
  | unchanged =>
    rw [(books_eq hb).1]
    exact hi
  | registered =>
    rw [(books_eq hb).1]
    exact Table.forall_lookup_insert rfl fun a miner _ hl ↦ hi a miner hl
  | valid _ hl hs hvalid hinvalid =>
    rw [(books_eq hb).1]
    refine Table.forall_lookup_insert ?_ fun a miner _ hl ↦ hi a miner hl
    rw [hs, hvalid, hinvalid, hi _ _ hl, add_right_comm]
  | invalid _ hl hs hvalid hinvalid =>
    rw [(books_eq hb).1]
    refine Table.forall_lookup_insert ?_ fun a miner _ hl ↦ hi a miner hl
    rw [hs, hvalid, hinvalid, hi _ _ hl, add_assoc]

/-! ### One registered miner -/

/-- What 87 digits `z` of base 58 decode to. -/
def registeredBytes : Bytes := (leBytes 64 (58 ^ 87 - 1)).reverse

/-- A configuration with the least difficulty. -/
def sampleRegistration : Registration where
  minDifficulty := 1
  isAlphanumeric := Char.isAlphanum
  base58Decode _ := some registeredBytes

/-- An address of 91 characters. -/
def registeredAddress : String := "SLVR" ++ String.ofList (List.replicate 87 'z')

/-- A repeated character takes its size each time. -/
theorem utf8ByteSize_replicate (n : Nat) (ch : Char) :
    (String.ofList (List.replicate n ch)).utf8ByteSize = n * ch.utf8Size := by
  induction n with
  | zero => simp
  | succ n ih =>
    rw [List.replicate_succ', String.ofList_append, String.utf8ByteSize_append, ih,
      Nat.succ_mul]
    congr 1
    exact String.utf8ByteSize_singleton

/-- The address is valid. -/
theorem validateMinerAddress_registeredAddress :
    validateMinerAddress sampleRegistration registeredAddress = true := by
  have ht : registeredAddress.toList = "SLVR".toList ++ List.replicate 87 'z' := by
    rw [registeredAddress, String.toList_append, String.toList_ofList (l := List.replicate 87 'z')]
  have hsize : registeredAddress.utf8ByteSize = 91 := by
    rw [registeredAddress, String.utf8ByteSize_append, utf8ByteSize_replicate]
    rfl
  have hall : registeredAddress.toList.all sampleRegistration.isAlphanumeric = true := by
    rw [ht, List.all_append, List.all_replicate]
    rfl
  have hstart : "SLVR".toList <+: registeredAddress.toList := by
    rw [ht]
    exact List.prefix_append _ _
  have hdecoded : registeredBytes.length = 64 := by
    rw [registeredBytes, List.length_reverse, length_leBytes]
  unfold validateMinerAddress
  rw [if_neg (not_not.mpr hstart), if_neg (by omega), if_neg (not_not.mpr hall)]
  exact decide_eq_true hdecoded

/-- A pool that has just started. -/
def startedPool : PoolState := .new sampleEnv ⟨"http://localhost:8332", 1000⟩

/-- The miner registers. -/
def registerEvent : PoolEvent := ⟨.registerMiner registeredAddress, sampleEnv⟩

/-- The miner submits a share. -/
def shareEvent : PoolEvent := ⟨.submitShare (sampleEnv.uuid 0) 7 largestHash, sampleEnv⟩

/-- The address is registered in any pool. -/
theorem registerMiner_registeredAddress (pool : PoolState) :
    pool.registerMiner sampleRegistration sampleEnv registeredAddress =
      (.ok (sampleEnv.uuid 0), { pool with
        miners := pool.miners.insert (sampleEnv.uuid 0)
          (newSession sampleRegistration (sampleEnv.uuid 0) registeredAddress 1700000000) }) := by
  rw [registerMiner, if_neg (not_not.mpr validateMinerAddress_registeredAddress)]
  rfl

/-- The registration opens a session. -/
theorem miners_registered :
    (startedPool.step sampleCrates sampleRegistration registerEvent).miners =
      Finmap.insert (sampleEnv.uuid 0)
        (newSession sampleRegistration (sampleEnv.uuid 0) registeredAddress 1700000000) ∅ := by
  rw [step, registerEvent]
  dsimp only
  rw [registerMiner_registeredAddress]
  rfl

/-- The share is counted in the session of the miner and not in the total. -/
theorem share_not_in_total :
    SessionRun sampleCrates sampleRegistration sampleEnv ⟨"http://localhost:8332", 1000⟩
        [registerEvent, shareEvent]
        ([registerEvent, shareEvent].foldl (step sampleCrates sampleRegistration) startedPool) ∧
      ¬TotalsMatch
        ([registerEvent, shareEvent].foldl (step sampleCrates sampleRegistration)
          startedPool) := by
  refine ⟨Run.foldl _ _ _, fun h ↦ ?_⟩
  have hcounts : CountsNoShare startedPool registerEvent := by
    intro minerId nonce hash hc
    cases hc
  have hidle : Idle (startedPool.step sampleCrates sampleRegistration registerEvent) :=
    idle_step (idle_new _ _) hcounts
  rw [List.foldl_cons, List.foldl_cons, List.foldl_nil] at h
  have hl := countsNoShare_of_totalsMatch hidle h _ _ _ rfl
  rw [miners_registered, Finmap.lookup_insert] at hl
  cases hl

/-- Somebody without a session submits a share. -/
def strayEvent : PoolEvent := ⟨.submitShare "stranger" 7 largestHash, sampleEnv⟩

/-- The totals match while a miner registers and somebody else submits a share. -/
theorem totalsMatch_iff_registered :
    Run.Always (fun pool e pool' ↦ pool' = pool.step sampleCrates sampleRegistration e)
      (.new sampleEnv ⟨"http://localhost:8332", 1000⟩) (fun _ ↦ TotalsMatch)
      [registerEvent, strayEvent] := by
  apply (totalsMatch_iff (Run.foldl _ _ _)).mpr
  refine .snoc (.snoc .nil ⟨?_, rfl⟩) ⟨?_, rfl⟩
  · rintro _ _ _ ⟨⟩
    have hstranger : "stranger" ≠ sampleEnv.uuid 0 := by decide
    exact (congrArg _ miners_registered).trans (Finmap.lookup_insert_of_ne _ hstranger)
  · intro minerId nonce hash hc
    cases hc

end PoolState
end SilverPow.Stratum
