import SilverPow.Base.Bytes
import SilverPow.Base.Run
import SilverPow.Base.Table
import SilverPow.Config

/-!
# The mining pool

`src/mining_pool.rs`: the miners of a pool and their accounts, the shares that the pool
has accepted, and the counters about both. A call holds the locks of all that it changes
until it returns, so a run is a sequence of calls, each with the clock reading that it
took. Sums and counters wrap, as in a release build.
-/

namespace SilverPow.Mining

open SilverPow.Base

/-- `PoolConfig`, `src/mining_pool.rs:13–18`; the proof-of-work parameters are not used. -/
structure PoolConfig where
  minShareDifficulty : U64
  maxMiners : Nat
  poolFeePercentage : U8

/-- `PoolConfig::new`, `src/mining_pool.rs:21–28`. -/
def PoolConfig.new : PoolConfig := ⟨1_000, 10_000, 1⟩

/-- `PoolConfig::with_fee`, `src/mining_pool.rs:30–38`. -/
def PoolConfig.withFee (config : PoolConfig) (fee : U8) : PoolConfig :=
  { config with poolFeePercentage := if 10 < fee then 10 else fee }

/-- `PoolStats`, `src/mining_pool.rs:48–57`; the counters that these calls update. -/
structure PoolStats where
  connectedMiners : Nat
  sharesAccepted : U64
  sharesRejected : U64
  blocksFound : U64

/-- `PoolStats::new`, `src/mining_pool.rs:79–92`. -/
def PoolStats.new : PoolStats := ⟨0, 0, 0, 0⟩

/-- `MinerShare`, `src/mining_pool.rs:102–113`. -/
structure MinerShare where
  minerId : Bytes
  workId : Bytes
  nonce : U64
  extraNonce : U64
  hashResult : Bytes
  difficulty : U64
  timestamp : U64
  isBlock : Bool
  chainId : U32
  blockHeight : U64
  deriving DecidableEq

/-- `MinerShare::new`, `src/mining_pool.rs:136–190`. -/
def MinerShare.new (minerId workId : Bytes) (nonce extraNonce : U64) (hashResult : Bytes)
    (difficulty : U64) (isBlock : Bool) (chainId : U32) (blockHeight now : U64) :
    Except String MinerShare := do
  if minerId = [] ∨ 64 < minerId.length then
    throw s!"Invalid miner_id length: {minerId.length}"
  if hashResult.length ≠ 64 then
    throw s!"Invalid hash_result length: expected 64, got {hashResult.length}"
  if difficulty = 0 then throw "Difficulty cannot be zero"
  if nonce = 0 ∧ isBlock = false then throw "Nonce cannot be zero"
  return ⟨minerId, workId, nonce, extraNonce, hashResult, difficulty, now, isBlock, chainId,
    blockHeight⟩

/-- `MinerShareBuilder`, `src/mining_pool.rs:752–763`; the `with_` functions set one field. -/
abbrev MinerShareBuilder := MinerShare

/-- `MinerShare::builder`, `src/mining_pool.rs:117–133`. -/
def MinerShare.builder (minerId workId hashResult : Bytes) (now : U64) : MinerShareBuilder :=
  ⟨minerId, workId, 0, 0, hashResult, 1, now, false, 0, 0⟩

/-- `MinerShareBuilder::build`, `src/mining_pool.rs:806–833`. -/
def MinerShareBuilder.build (b : MinerShareBuilder) : Except String MinerShare := do
  if b.hashResult.length ≠ 64 then throw "Invalid hash result length"
  if b.minerId = [] then throw "Miner ID cannot be empty"
  return b

/-- `MinerAccount`, `src/mining_pool.rs:194–202`. -/
structure MinerAccount where
  minerId : Bytes
  minerAddress : Bytes
  totalShares : U64
  totalEarnings : U128
  pendingPayout : U128
  lastShareTime : U64
  connectedSince : U64

namespace MinerAccount

/-- `MinerAccount::new`, `src/mining_pool.rs:204–222`. -/
def new (minerId minerAddress : Bytes) (now : U64) : MinerAccount :=
  ⟨minerId, minerAddress, 0, 0, 0, now, now⟩

/-- One more share of the miner, `src/mining_pool.rs:364–367`. -/
def addShare (now : U64) (account : MinerAccount) : MinerAccount :=
  { account with totalShares := account.totalShares + 1, lastShareTime := now }

/-- An amount owed to the miner, `src/mining_pool.rs:481–483`. -/
def addPayout (amount : U128) (account : MinerAccount) : MinerAccount :=
  { account with
    pendingPayout := account.pendingPayout + amount
    totalEarnings := account.totalEarnings + amount }

end MinerAccount

/-- `Miner`, `src/miner.rs:69–77`; of what a pool keeps of a miner, its thread count. -/
structure Miner where
  numThreads : Nat

/-- `MiningPool`, `src/mining_pool.rs:225–234`, without the work and the start time. -/
structure MiningPool where
  config : PoolConfig
  miners : Table Bytes Miner
  minerAccounts : Table Bytes MinerAccount
  stats : PoolStats
  shares : List MinerShare
  totalShares : U64

namespace MiningPool

/-- `MiningPool::new`, `src/mining_pool.rs:237–253`. -/
def new (config : PoolConfig) : MiningPool := ⟨config, ∅, ∅, .new, [], 0⟩

/-- What a registration changes, `src/mining_pool.rs:267–280`. -/
def addMiner (s : MiningPool) (minerId minerAddress : Bytes) (now : U64) : MiningPool :=
  let miners := s.miners.insert minerId ⟨1⟩
  { s with
    miners
    minerAccounts := s.minerAccounts.insert minerId (.new minerId minerAddress now)
    stats := { s.stats with connectedMiners := miners.entries.card } }

/-- `register_miner`, `src/mining_pool.rs:256–284`. -/
def registerMiner (s : MiningPool) (minerId minerAddress : Bytes) (now : U64) :
    Except String Unit × MiningPool :=
  if s.config.maxMiners ≤ s.miners.entries.card then (.error "Pool is full", s)
  else if (s.miners.lookup minerId).isSome then (.error "Miner already registered", s)
  else (.ok (), s.addMiner minerId minerAddress now)

/-- `unregister_miner`, `src/mining_pool.rs:287–302`; it returns no error. -/
def unregisterMiner (s : MiningPool) (minerId : Bytes) : MiningPool :=
  let miners := s.miners.erase minerId
  { s with
    miners
    minerAccounts := s.minerAccounts.erase minerId
    stats := { s.stats with connectedMiners := miners.entries.card } }

/-- A share that is refused is counted. -/
def rejectShare (s : MiningPool) : MiningPool :=
  { s with stats := { s.stats with sharesRejected := s.stats.sharesRejected + 1 } }

/-- What an accepted share changes, `src/mining_pool.rs:350–370`. -/
def acceptShare (s : MiningPool) (share : MinerShare) (now : U64) : MiningPool :=
  { s with
    stats := { s.stats with
      blocksFound := if share.isBlock then s.stats.blocksFound + 1 else s.stats.blocksFound
      sharesAccepted := s.stats.sharesAccepted + 1 }
    totalShares := s.totalShares + 1
    minerAccounts := s.minerAccounts.modify share.minerId (.addShare now)
    shares := s.shares ++ [share] }

/-- `submit_share`, `src/mining_pool.rs:329–373`. -/
def submitShare (s : MiningPool) (share : MinerShare) (now : U64) :
    Except String Bool × MiningPool :=
  if share.difficulty < s.config.minShareDifficulty then
    (.error "Share difficulty too low", s.rejectShare)
  else if share.timestamp + 3600 < now then (.error "Share too old", s.rejectShare)
  else (.ok share.isBlock, s.acceptShare share now)

/-- `get_miner_shares`, `src/mining_pool.rs:396–403`. -/
def getMinerShares (s : MiningPool) (minerId : Bytes) : List MinerShare :=
  s.shares.filter (·.minerId == minerId)

/-- `validate_miner_address`, `src/mining_pool.rs:406–430`. -/
def validateMinerAddress (address : Bytes) : Except String Unit :=
  if address.length ≠ 20 then
    .error s!"Invalid miner address length: expected 20 bytes, got {address.length}"
  else if address.all (· == 0) then .error "Miner address cannot be all zeros"
  else if address.all (· == 0xFF) then .error "Miner address cannot be all ones"
  else .ok ()

/-- What a payout changes, `src/mining_pool.rs:481–483`. -/
def payMiner (s : MiningPool) (minerAddress : Bytes) (amount : U128) : MiningPool :=
  { s with minerAccounts := s.minerAccounts.modify minerAddress (.addPayout amount) }

/-- `process_payout`, `src/mining_pool.rs:468–490`. -/
def processPayout (s : MiningPool) (minerAddress : Bytes) (amount : U128) :
    Except String Unit × MiningPool :=
  match validateMinerAddress minerAddress with
  | .error e => (.error e, s)
  | .ok () =>
    if amount = 0 then (.error "Payout amount cannot be zero", s)
    else if (s.minerAccounts.lookup minerAddress).isSome then
      (.ok (), s.payMiner minerAddress amount)
    else (.error "Miner account not found", s)

end MiningPool

/-! ### Runs -/

/-- A call that changes the pool. -/
inductive Call where
  | registerMiner (minerId minerAddress : Bytes)
  | unregisterMiner (minerId : Bytes)
  | submitShare (share : MinerShare)
  | processPayout (minerAddress : Bytes) (amount : U128)

/-- A call with the clock reading that it takes. -/
structure Event where
  call : Call
  now : U64

/-- What a call has done, as its caller sees it. -/
inductive Outcome where
  | registered (minerId minerAddress : Bytes)
  | unregistered (minerId : Bytes)
  | accepted (share : MinerShare)
  | rejected
  | paid (minerAddress : Bytes) (amount : U128)
  | refused

namespace MiningPool

/-- The pool after a call. -/
def step (s : MiningPool) (e : Event) : MiningPool :=
  match e.call with
  | .registerMiner minerId minerAddress => (s.registerMiner minerId minerAddress e.now).2
  | .unregisterMiner minerId => s.unregisterMiner minerId
  | .submitShare share => (s.submitShare share e.now).2
  | .processPayout minerAddress amount => (s.processPayout minerAddress amount).2

/-- What a call does, by the result that it returns. -/
def outcome (s : MiningPool) (e : Event) : Outcome :=
  match e.call with
  | .registerMiner minerId minerAddress =>
    match (s.registerMiner minerId minerAddress e.now).1 with
    | .ok () => .registered minerId minerAddress
    | .error _ => .refused
  | .unregisterMiner minerId => .unregistered minerId
  | .submitShare share =>
    match (s.submitShare share e.now).1 with
    | .ok _ => .accepted share
    | .error _ => .rejected
  | .processPayout minerAddress amount =>
    match (s.processPayout minerAddress amount).1 with
    | .ok () => .paid minerAddress amount
    | .error _ => .refused

/-- What a call changes, by its outcome. -/
inductive Effect (s : MiningPool) : Outcome → MiningPool → Prop
  | registered {minerId minerAddress : Bytes} {now : U64} :
      s.miners.entries.card < s.config.maxMiners → s.miners.lookup minerId = none →
      Effect s (.registered minerId minerAddress) (s.addMiner minerId minerAddress now)
  | unregistered {minerId : Bytes} :
      Effect s (.unregistered minerId) (s.unregisterMiner minerId)
  | accepted {share : MinerShare} {now : U64} :
      s.config.minShareDifficulty ≤ share.difficulty → now ≤ share.timestamp + 3600 →
      Effect s (.accepted share) (s.acceptShare share now)
  | rejected : Effect s .rejected s.rejectShare
  | paid {minerAddress : Bytes} {amount : U128} {account : MinerAccount} :
      s.minerAccounts.lookup minerAddress = some account →
      Effect s (.paid minerAddress amount) (s.payMiner minerAddress amount)
  | refused : Effect s .refused s

/-- Every call has the effect that its outcome says. -/
theorem effect_step (s : MiningPool) (e : Event) : Effect s (s.outcome e) (s.step e) := by
  unfold outcome step
  cases e.call with
  | registerMiner minerId minerAddress =>
    simp only [registerMiner]
    by_cases hm : s.config.maxMiners ≤ s.miners.entries.card
    · simp only [if_pos hm]
      exact .refused
    · simp only [if_neg hm]
      cases hl : s.miners.lookup minerId with
      | none => exact .registered (Nat.lt_of_not_le hm) hl
      | some miner => exact .refused
  | unregisterMiner minerId => exact .unregistered
  | submitShare share =>
    simp only [submitShare]
    by_cases hd : share.difficulty < s.config.minShareDifficulty
    · simp only [if_pos hd]
      exact .rejected
    · simp only [if_neg hd]
      by_cases ht : share.timestamp + 3600 < e.now
      · simp only [if_pos ht]
        exact .rejected
      · simp only [if_neg ht]
        exact .accepted (BitVec.not_lt.mp hd) (BitVec.not_lt.mp ht)
  | processPayout minerAddress amount =>
    simp only [processPayout]
    cases validateMinerAddress minerAddress with
    | error message => exact .refused
    | ok _ =>
      by_cases ha : amount = 0
      · simp only [if_pos ha]
        exact .refused
      · simp only [if_neg ha]
        cases hl : s.minerAccounts.lookup minerAddress with
        | none => exact .refused
        | some account => exact .paid hl

/-- The states that a pool reaches, with the calls on the way. -/
abbrev PoolRun (config : PoolConfig) : List Event → MiningPool → Prop :=
  Run (fun s e s' ↦ s' = s.step e) (.new config)

/-- What the calls of a run have done, in order. -/
def outcomes (config : PoolConfig) (es : List Event) : List Outcome :=
  Run.collect step (fun s e ↦ some (s.outcome e)) (.new config) es

/-- One more call adds its outcome. -/
theorem outcomes_concat {config : PoolConfig} {es : List Event} {s : MiningPool}
    (h : PoolRun config es s) (e : Event) :
    outcomes config (es ++ [e]) = outcomes config es ++ [s.outcome e] :=
  Run.collect_concat (fun _ _ _ ↦ id) _ h e

/-- What every effect keeps, with its outcome added to the history, holds in every run. -/
theorem outcomes_invariant {config : PoolConfig} (I : List Outcome → MiningPool → Prop)
    (start : I [] (.new config))
    (kept : ∀ log s o s', I log s → Effect s o s' → I (log ++ [o]) s') {es : List Event}
    {s : MiningPool} (h : PoolRun config es s) : I (outcomes config es) s := by
  induction h with
  | nil => exact start
  | @snoc es s s' e hr hs ih =>
    subst hs
    rw [outcomes_concat hr]
    exact kept _ _ _ _ ih (effect_step s e)

/-- No call changes the parameters of the pool. -/
theorem config_of_run {config : PoolConfig} {es : List Event} {s : MiningPool}
    (h : PoolRun config es s) : s.config = config :=
  outcomes_invariant (fun _ s ↦ s.config = config) rfl
    (fun _ _ _ _ hi he ↦ by cases he <;> exact hi) h

end MiningPool
end SilverPow.Mining
