import SilverPow.Base.LockOrder
import SilverPow.Base.Serial
import SilverPow.Mining.Ageing
import SilverPow.Mining.Payouts
import SilverPow.Work.Package

/-!
# The calls of a mining pool, lock by lock

The calls of `src/mining_pool.rs` as programs over the five locks of a pool. A call that changes
the pool keeps every lock until it returns, so that concurrent calls have the effect of the
same calls one after another. But a registration takes the accounts before the statistics, and
a share the statistics before the accounts. What a reading call returns is any function of what
it reads. A miner's own work and statistics, which are under locks of the miner that are taken
last and for one access, are left out.
-/

namespace SilverPow.Mining

open SilverPow.Base SilverPow.Work MiningPool

/-- The locks of a `MiningPool`, `src/mining_pool.rs:225–234`. -/
inductive PoolLock where
  | miners
  | minerAccounts
  | stats
  | shares
  | currentWork
  deriving DecidableEq

/-- What the lock of the statistics guards. The number of shares is an atomic counter, which is
incremented only with this lock held. -/
structure LockedStats where
  stats : PoolStats
  totalShares : U64
  poolFeeCollected : U128

/-- What the locks guard. -/
abbrev PoolData : PoolLock → Type
  | .miners => Table Bytes Miner
  | .minerAccounts => Table Bytes MinerAccount
  | .stats => LockedStats
  | .shares => List MinerShare
  | .currentWork => Option WorkPackage

/-- A mining pool with the fee that it has collected and the work that it has distributed, which
no other call reads. -/
structure FeePool extends MiningPool where
  poolFeeCollected : U128
  currentWork : Option WorkPackage

/-- The pool as its locks see it. -/
def FeePool.data (s : FeePool) : ∀ l, PoolData l
  | .miners => s.miners
  | .minerAccounts => s.minerAccounts
  | .stats => ⟨s.stats, s.totalShares, s.poolFeeCollected⟩
  | .shares => s.shares
  | .currentWork => s.currentWork

/-- What a call returns; `R` are the results of the reading calls. -/
inductive Reply (R : Type) where
  | done (result : Except String Unit)
  | share (result : Except String Bool)
  | value (r : R)

/-- A call of the pool as a program. -/
abbrev PoolProg (R : Type) : Type := Prog PoolLock PoolData (Reply R)

variable {R : Type}

/-! ### The programs -/

/-- `register_miner`, `src/mining_pool.rs:256–284`. -/
def registerMinerProg (config : PoolConfig) (minerId minerAddress : Bytes) (now : U64) :
    PoolProg R :=
  .lock .miners .write <| .get .miners fun miners ↦
    if config.maxMiners ≤ miners.entries.card then .ret (.done (.error "Pool is full"))
    else if (miners.lookup minerId).isSome then
      .ret (.done (.error "Miner already registered"))
    else
      .set .miners (miners.insert minerId ⟨1⟩) <|
      .lock .minerAccounts .write <| .get .minerAccounts fun accounts ↦
      .set .minerAccounts (accounts.insert minerId (.new minerId minerAddress now)) <|
      .lock .stats .write <| .get .stats fun s ↦
      .set .stats { s with stats := { s.stats with
        connectedMiners := (miners.insert minerId ⟨1⟩).entries.card } } <|
      .ret (.done (.ok ()))

/-- `unregister_miner`, `src/mining_pool.rs:287–302`. -/
def unregisterMinerProg (minerId : Bytes) : PoolProg R :=
  .lock .miners .write <| .get .miners fun miners ↦
  .set .miners (miners.erase minerId) <|
  .lock .minerAccounts .write <| .get .minerAccounts fun accounts ↦
  .set .minerAccounts (accounts.erase minerId) <|
  .lock .stats .write <| .get .stats fun s ↦
  .set .stats { s with stats := { s.stats with
    connectedMiners := (miners.erase minerId).entries.card } } <|
  .ret (.done (.ok ()))

/-- `distribute_work`, `src/mining_pool.rs:310–326`, but for the copies that the miners get. -/
def distributeWorkProg (work : WorkPackage) : PoolProg R :=
  .lock .miners .read <| .get .miners fun miners ↦
    if miners.entries.card = 0 then .ret (.done (.error "No miners connected"))
    else
      .lock .currentWork .write <| .set .currentWork (some work) <|
      .ret (.done (.ok ()))

/-- `submit_share`, `src/mining_pool.rs:329–373`. -/
def submitShareProg (config : PoolConfig) (share : MinerShare) (now : U64) : PoolProg R :=
  .lock .stats .write <| .get .stats fun s ↦
    if share.difficulty < config.minShareDifficulty then
      .set .stats { s with stats := { s.stats with
        sharesRejected := s.stats.sharesRejected + 1 } } <|
      .ret (.share (.error "Share difficulty too low"))
    else if share.timestamp + 3600 < now then
      .set .stats { s with stats := { s.stats with
        sharesRejected := s.stats.sharesRejected + 1 } } <|
      .ret (.share (.error "Share too old"))
    else
      .set .stats { s with
        stats := { s.stats with
          blocksFound := if share.isBlock then s.stats.blocksFound + 1 else s.stats.blocksFound
          sharesAccepted := s.stats.sharesAccepted + 1 }
        totalShares := s.totalShares + 1 } <|
      .lock .minerAccounts .write <| .get .minerAccounts fun accounts ↦
      .set .minerAccounts (accounts.modify share.minerId (.addShare now)) <|
      .lock .shares .write <| .get .shares fun shares ↦
      .set .shares (shares ++ [share]) <|
      .ret (.share (.ok share.isBlock))

/-- `process_payout`, `src/mining_pool.rs:468–490`. -/
def processPayoutProg (minerAddress : Bytes) (amount : U128) : PoolProg R :=
  match validateMinerAddress minerAddress with
  | .error e => .ret (.done (.error e))
  | .ok () =>
    if amount = 0 then .ret (.done (.error "Payout amount cannot be zero"))
    else
      .lock .minerAccounts .write <| .get .minerAccounts fun accounts ↦
        if (accounts.lookup minerAddress).isSome then
          .set .minerAccounts (accounts.modify minerAddress (.addPayout amount)) <|
          .ret (.done (.ok ()))
        else .ret (.done (.error "Miner account not found"))

/-- `clear_old_shares`, `src/mining_pool.rs:518–528`; the subtraction wraps. -/
def clearOldSharesProg (maxAgeSeconds now : U64) : PoolProg R :=
  .lock .shares .write <| .get .shares fun shares ↦
  .set .shares (shares.filter fun s ↦ now - s.timestamp ≤ maxAgeSeconds) <|
  .ret (.done (.ok ()))

/-- `add_pool_fee`, `src/mining_pool.rs:536–539`. -/
def addPoolFeeProg (amount : U128) : PoolProg R :=
  .lock .stats .write <| .get .stats fun s ↦
  .set .stats { s with poolFeeCollected := s.poolFeeCollected + amount } <|
  .ret (.done (.ok ()))

/-- A call that reads what one lock guards: `get_miner_count`, `get_miner_shares`,
`get_miner_account`, `get_all_miner_accounts`, `get_all_shares`, `get_shares_since`,
`get_pool_fee_collected`, `get_average_hashrate` and `get_top_miners`,
`src/mining_pool.rs:305–592`. -/
def readProg (l : PoolLock) (f : PoolData l → R) : PoolProg R :=
  .lock l .read <| .get l fun d ↦ .ret (.value (f d))

/-- `get_stats`, `src/mining_pool.rs:376–393`: a copy of the statistics, then the miners. -/
def getStatsProg (f : LockedStats → Table Bytes Miner → R) : PoolProg R :=
  .lock .stats .read <| .get .stats fun s ↦ .unlock .stats <|
  .lock .miners .read <| .get .miners fun miners ↦ .ret (.value (f s miners))

/-- `calculate_miner_payout`, `src/mining_pool.rs:433–465`: the shares of the miner, then all
shares, which may have changed in between. -/
def calculateMinerPayoutProg (config : PoolConfig) (minerId : Bytes) (totalBlockReward : U128)
    (f : Except String U128 → R) : PoolProg R :=
  match validateMinerAddress minerId with
  | .error e => .ret (.value (f (.error e)))
  | .ok () =>
    .lock .shares .read <| .get .shares fun before ↦ .unlock .shares <|
      let shares := before.filter (·.minerId == minerId)
      if shares = [] then .ret (.value (f (.ok 0)))
      else
        .lock .shares .read <| .get .shares fun allShares ↦
          let totalShares := (allShares.map (·.difficulty)).sum
          if totalShares = 0 then .ret (.value (f (.ok 0)))
          else
            let minerShareDifficulty := (shares.map (·.difficulty)).sum
            let minerPercentage : ℚ := minerShareDifficulty.toNat / totalShares.toNat
            let rewardAfterFee := (MiningPool.new config).rewardAfterFee totalBlockReward
            .ret (.value (f (.ok (truncU128 (rewardAfterFee.toNat * minerPercentage)))))

/-- `get_pool_efficiency`, `src/mining_pool.rs:558–578`: with the statistics held, the shares. -/
def getPoolEfficiencyProg (f : List MinerShare → R) : PoolProg R :=
  .lock .stats .read <| .lock .shares .read <| .get .shares fun shares ↦ .ret (.value (f shares))

/-- `get_detailed_stats`, `src/mining_pool.rs:595–635`: a copy of the statistics, then the
miners and the shares. -/
def getDetailedStatsProg (f : LockedStats → Table Bytes Miner → List MinerShare → R) :
    PoolProg R :=
  .lock .stats .read <| .get .stats fun s ↦ .unlock .stats <|
  .lock .miners .read <| .lock .shares .read <|
  .get .shares fun shares ↦ .get .miners fun miners ↦ .ret (.value (f s miners shares))

/-- The calls of a pool. -/
inductive PoolCall (R : Type) where
  | registerMiner (minerId minerAddress : Bytes) (now : U64)
  | unregisterMiner (minerId : Bytes)
  | distributeWork (work : WorkPackage)
  | submitShare (share : MinerShare) (now : U64)
  | processPayout (minerAddress : Bytes) (amount : U128)
  | clearOldShares (maxAgeSeconds now : U64)
  | addPoolFee (amount : U128)
  | read (l : PoolLock) (f : PoolData l → R)
  | getStats (f : LockedStats → Table Bytes Miner → R)
  | calculateMinerPayout (minerId : Bytes) (totalBlockReward : U128) (f : Except String U128 → R)
  | getPoolEfficiency (f : List MinerShare → R)
  | getDetailedStats (f : LockedStats → Table Bytes Miner → List MinerShare → R)

namespace PoolCall

/-- The program of a call. -/
def prog (config : PoolConfig) : PoolCall R → PoolProg R
  | .registerMiner minerId minerAddress now => registerMinerProg config minerId minerAddress now
  | .unregisterMiner minerId => unregisterMinerProg minerId
  | .distributeWork work => distributeWorkProg work
  | .submitShare share now => submitShareProg config share now
  | .processPayout minerAddress amount => processPayoutProg minerAddress amount
  | .clearOldShares maxAgeSeconds now => clearOldSharesProg maxAgeSeconds now
  | .addPoolFee amount => addPoolFeeProg amount
  | .read l f => readProg l f
  | .getStats f => getStatsProg f
  | .calculateMinerPayout minerId totalBlockReward f =>
    calculateMinerPayoutProg config minerId totalBlockReward f
  | .getPoolEfficiency f => getPoolEfficiencyProg f
  | .getDetailedStats f => getDetailedStatsProg f

/-- The call may change the pool. -/
def Changes : PoolCall R → Prop
  | .registerMiner .. | .unregisterMiner .. | .distributeWork .. | .submitShare ..
  | .processPayout .. | .clearOldShares .. | .addPoolFee .. => True
  | _ => False

end PoolCall

/-- `distribute_work`, `src/mining_pool.rs:310–326`, but for the copies that the miners get. -/
def FeePool.distributeWork (s : FeePool) (work : WorkPackage) : Except String Unit × FeePool :=
  if s.miners.entries.card = 0 then (.error "No miners connected", s)
  else (.ok (), { s with currentWork := some work })

/-- A call that runs alone: what it returns, and the pool after it. -/
def FeePool.apply (s : FeePool) : PoolCall R → Reply R × FeePool
  | .registerMiner minerId minerAddress now =>
    let (result, pool) := s.registerMiner minerId minerAddress now
    (.done result, { s with toMiningPool := pool })
  | .unregisterMiner minerId =>
    (.done (.ok ()), { s with toMiningPool := s.unregisterMiner minerId })
  | .distributeWork work =>
    let (result, s) := s.distributeWork work
    (.done result, s)
  | .submitShare share now =>
    let (result, pool) := s.submitShare share now
    (.share result, { s with toMiningPool := pool })
  | .processPayout minerAddress amount =>
    let (result, pool) := s.processPayout minerAddress amount
    (.done result, { s with toMiningPool := pool })
  | .clearOldShares maxAgeSeconds now =>
    (.done (.ok ()), { s with toMiningPool := s.clearOldShares maxAgeSeconds now })
  | .addPoolFee amount =>
    (.done (.ok ()), { s with poolFeeCollected := s.poolFeeCollected + amount })
  | .read l f => (.value (f (s.data l)), s)
  | .getStats f => (.value (f (s.data .stats) s.miners), s)
  | .calculateMinerPayout minerId totalBlockReward f =>
    (.value (f (s.calculateMinerPayout minerId totalBlockReward)), s)
  | .getPoolEfficiency f => (.value (f s.shares), s)
  | .getDetailedStats f => (.value (f (s.data .stats) s.miners s.shares), s)

/-! ### What the programs do alone -/

/-- The pool as its locks see it, after some of what they guard is written. -/
theorem FeePool.data_ext {s : FeePool} {data : ∀ l, PoolData l} (hm : data .miners = s.miners)
    (ha : data .minerAccounts = s.minerAccounts)
    (hs : data .stats = ⟨s.stats, s.totalShares, s.poolFeeCollected⟩)
    (hh : data .shares = s.shares) (hw : data .currentWork = s.currentWork) : data = s.data := by
  funext l
  cases l with
  | miners => exact hm
  | minerAccounts => exact ha
  | stats => exact hs
  | shares => exact hh
  | currentWork => exact hw

/-- Alone, each program does what the call does to the pool. -/
theorem exec_prog (s : FeePool) (call : PoolCall R) :
    (call.prog s.config).exec s.data = ((s.apply call).1, (s.apply call).2.data) := by
  cases call with
  | registerMiner minerId minerAddress now =>
    change Prog.exec (if s.config.maxMiners ≤ s.miners.entries.card then _ else
      if (s.miners.lookup minerId).isSome then _ else _) s.data = _
    simp only [FeePool.apply, registerMiner]
    by_cases hfull : s.config.maxMiners ≤ s.miners.entries.card
    · rw [if_pos hfull, if_pos hfull]
      rfl
    · rw [if_neg hfull, if_neg hfull]
      by_cases hknown : (s.miners.lookup minerId).isSome
      · rw [if_pos hknown, if_pos hknown]
        rfl
      · rw [if_neg hknown, if_neg hknown]
        exact Prod.ext rfl (FeePool.data_ext rfl rfl rfl rfl rfl)
  | unregisterMiner minerId => exact Prod.ext rfl (FeePool.data_ext rfl rfl rfl rfl rfl)
  | distributeWork work =>
    change Prog.exec (if s.miners.entries.card = 0 then _ else _) s.data = _
    simp only [FeePool.apply, FeePool.distributeWork]
    by_cases hempty : s.miners.entries.card = 0
    · rw [if_pos hempty, if_pos hempty]
      rfl
    · rw [if_neg hempty, if_neg hempty]
      exact Prod.ext rfl (FeePool.data_ext rfl rfl rfl rfl rfl)
  | submitShare share now =>
    change Prog.exec (if share.difficulty < s.config.minShareDifficulty then _ else
      if share.timestamp + 3600 < now then _ else _) _ = _
    simp only [FeePool.apply, submitShare]
    by_cases hlow : share.difficulty < s.config.minShareDifficulty
    · rw [if_pos hlow, if_pos hlow]
      exact Prod.ext rfl (FeePool.data_ext rfl rfl rfl rfl rfl)
    · rw [if_neg hlow, if_neg hlow]
      by_cases hold : share.timestamp + 3600 < now
      · rw [if_pos hold, if_pos hold]
        exact Prod.ext rfl (FeePool.data_ext rfl rfl rfl rfl rfl)
      · rw [if_neg hold, if_neg hold]
        exact Prod.ext rfl (FeePool.data_ext rfl rfl rfl rfl rfl)
  | processPayout minerAddress amount =>
    simp only [PoolCall.prog, processPayoutProg, FeePool.apply, processPayout]
    cases validateMinerAddress minerAddress with
    | error e => rfl
    | ok _ =>
      dsimp only
      by_cases hz : amount = 0
      · rw [if_pos hz, if_pos hz]
        rfl
      · rw [if_neg hz, if_neg hz]
        change Prog.exec (if (s.minerAccounts.lookup minerAddress).isSome then _ else _) _ = _
        by_cases hknown : (s.minerAccounts.lookup minerAddress).isSome
        · rw [if_pos hknown, if_pos hknown]
          exact Prod.ext rfl (FeePool.data_ext rfl rfl rfl rfl rfl)
        · rw [if_neg hknown, if_neg hknown]
          rfl
  | clearOldShares maxAgeSeconds now => exact Prod.ext rfl (FeePool.data_ext rfl rfl rfl rfl rfl)
  | addPoolFee amount => exact Prod.ext rfl (FeePool.data_ext rfl rfl rfl rfl rfl)
  | read l f => rfl
  | getStats f => rfl
  | calculateMinerPayout minerId totalBlockReward f =>
    simp only [PoolCall.prog, calculateMinerPayoutProg, FeePool.apply, calculateMinerPayout]
    cases validateMinerAddress minerId with
    | error e => rfl
    | ok _ =>
      change Prog.exec (if s.getMinerShares minerId = [] then _ else _) _ = _
      dsimp only
      by_cases hnone : s.getMinerShares minerId = []
      · rw [if_pos hnone, if_pos hnone]
        rfl
      · rw [if_neg hnone, if_neg hnone]
        change Prog.exec (if (s.shares.map (·.difficulty)).sum = 0 then _ else _) _ = _
        by_cases hz : (s.shares.map (·.difficulty)).sum = 0
        · rw [if_pos hz, if_pos hz]
          rfl
        · rw [if_neg hz, if_neg hz]
          rfl
  | getPoolEfficiency f => rfl
  | getDetailedStats f => rfl

/-- No call changes the parameters of the pool. -/
theorem config_apply (s : FeePool) (call : PoolCall R) : (s.apply call).2.config = s.config := by
  cases call with
  | registerMiner minerId minerAddress now =>
    simp only [FeePool.apply, registerMiner]
    split_ifs <;> rfl
  | distributeWork work =>
    simp only [FeePool.apply, FeePool.distributeWork]
    split_ifs <;> rfl
  | submitShare share now =>
    simp only [FeePool.apply, submitShare]
    split_ifs <;> rfl
  | processPayout minerAddress amount =>
    simp only [FeePool.apply, processPayout]
    split
    · rfl
    · split_ifs <;> rfl
  | unregisterMiner | clearOldShares | addPoolFee | read | getStats | calculateMinerPayout
  | getPoolEfficiency | getDetailedStats => rfl

end SilverPow.Mining
