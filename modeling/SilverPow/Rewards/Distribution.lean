import SilverPow.Base.Run
import SilverPow.Base.Table
import SilverPow.Rewards.Schedule

/-!
# Reward distribution

`src/reward_distribution.rs`: one account per miner, the history of recorded block
rewards, and the total that was paid out. A call takes all its locks before it changes
anything that it can still fail on, so a run is a sequence of calls, each with the clock
reading that it took.
-/

namespace SilverPow.Rewards

open SilverPow.Base

/-- `MinerRewardAccount`, `src/reward_distribution.rs:14–29`. -/
structure MinerRewardAccount where
  address : String
  totalRewards : U128
  pendingRewards : U128
  paidRewards : U128
  blocksFound : U64
  lastRewardTime : U64
  createdAt : U64

namespace MinerRewardAccount

/-- `MinerRewardAccount::new`, `src/reward_distribution.rs:33–48`. -/
def new (address : String) (now : U64) : MinerRewardAccount := ⟨address, 0, 0, 0, 0, now, now⟩

/-- `MinerRewardAccount::add_reward`, `src/reward_distribution.rs:51–59`. -/
def addReward (account : MinerRewardAccount) (amount : U128) (now : U64) : MinerRewardAccount :=
  { account with
    totalRewards := Word.saturatingAdd account.totalRewards amount
    pendingRewards := Word.saturatingAdd account.pendingRewards amount
    blocksFound := Word.saturatingAdd account.blocksFound 1
    lastRewardTime := now }

/-- `MinerRewardAccount::mark_paid`, `src/reward_distribution.rs:62–73`. -/
def markPaid (account : MinerRewardAccount) (amount : U128) : Except String MinerRewardAccount :=
  if account.pendingRewards < amount then
    .error s!"Insufficient pending rewards: {account.pendingRewards.toNat} < {amount.toNat}"
  else
    .ok { account with
      pendingRewards := Word.saturatingSub account.pendingRewards amount
      paidRewards := Word.saturatingAdd account.paidRewards amount }

/-- `MinerRewardAccount::balance`, `src/reward_distribution.rs:76–78`. -/
def balance (account : MinerRewardAccount) : U128 :=
  Word.saturatingSub account.totalRewards account.paidRewards

end MinerRewardAccount

/-- `BlockRewardRecord`, `src/reward_distribution.rs:83–98`. -/
structure BlockRewardRecord where
  blockHeight : U64
  blockHash : String
  minerAddress : String
  baseReward : U128
  transactionFees : U128
  totalReward : U128
  timestamp : U64

/-- `BlockRewardRecord::new`, `src/reward_distribution.rs:102–125`. -/
def BlockRewardRecord.new (blockHeight : U64) (blockHash minerAddress : String)
    (baseReward transactionFees : U128) (now : U64) : BlockRewardRecord :=
  ⟨blockHeight, blockHash, minerAddress, baseReward, transactionFees,
    Word.saturatingAdd baseReward transactionFees, now⟩

/-- `RewardStats`, `src/reward_distribution.rs:312–319`. -/
structure RewardStats where
  totalMiners : Nat
  totalBlocksMined : U64
  totalRewardsEarned : U128
  totalRewardsPending : U128
  totalRewardsDistributed : U128
  rewardHistorySize : Nat

/-- `RewardDistributionManager`, `src/reward_distribution.rs:129–140`. -/
structure RewardDistributionManager where
  accounts : Table String MinerRewardAccount
  rewardHistory : List BlockRewardRecord
  totalDistributed : U128
  halvingInterval : U64
  baseBlockReward : U128

namespace RewardDistributionManager

/-- `RewardDistributionManager::new`, `src/reward_distribution.rs:144–152`. -/
def new (halvingInterval : U64) (baseBlockReward : U128) : RewardDistributionManager :=
  ⟨∅, [], 0, halvingInterval, baseBlockReward⟩

/-- `calculate_block_reward`, `src/reward_distribution.rs:155–165`. -/
def calculateBlockReward (s : RewardDistributionManager) (blockHeight : U64) : Option U128 :=
  halvedReward s.halvingInterval s.baseBlockReward blockHeight

/-- Add a record to the account of its miner, and to the history. -/
def credit (s : RewardDistributionManager) (record : BlockRewardRecord) (now : U64) :
    RewardDistributionManager :=
  let (account, accounts) := s.accounts.entryOrInsert record.minerAddress
    (.new record.minerAddress now)
  { s with
    accounts := accounts.insert record.minerAddress (account.addReward record.totalReward now)
    rewardHistory := s.rewardHistory ++ [record] }

/-- `record_block_reward`, `src/reward_distribution.rs:168–205`. It returns no error; a
zero halving interval aborts it before it takes a lock. -/
def recordBlockReward (s : RewardDistributionManager) (blockHeight : U64)
    (blockHash minerAddress : String) (transactionFees : U128) (now : U64) :
    Option (BlockRewardRecord × RewardDistributionManager) := do
  let baseReward ← s.calculateBlockReward blockHeight
  let record := .new blockHeight blockHash minerAddress baseReward transactionFees now
  return (record, s.credit record now)

/-- `process_payout`, `src/reward_distribution.rs:226–257`. -/
def processPayout (s : RewardDistributionManager) (minerAddress : String) (amount : U128) :
    Except String Unit × RewardDistributionManager :=
  match s.accounts.lookup minerAddress with
  | none => (.error s!"Miner account not found: {minerAddress}", s)
  | some account =>
    if account.balance < amount then
      (.error s!"Insufficient balance: {account.balance.toNat} < {amount.toNat}", s)
    else match account.markPaid amount with
      | .error e => (.error e, s)
      | .ok paid =>
        (.ok (), { s with
          accounts := s.accounts.insert minerAddress paid
          totalDistributed := Word.saturatingAdd s.totalDistributed amount })

/-- `get_stats`, `src/reward_distribution.rs:275–292`; its sums wrap. -/
def getStats (s : RewardDistributionManager) : RewardStats where
  totalMiners := s.accounts.entries.card
  totalBlocksMined := s.accounts.total (·.blocksFound)
  totalRewardsEarned := s.accounts.total (·.totalRewards)
  totalRewardsPending := s.accounts.total (·.pendingRewards)
  totalRewardsDistributed := s.totalDistributed
  rewardHistorySize := s.rewardHistory.length

/-- The calls that change the ledger. -/
inductive Call where
  | recordBlockReward (blockHeight : U64) (blockHash minerAddress : String)
      (transactionFees : U128)
  | processPayout (minerAddress : String) (amount : U128)

/-- A call with the clock reading that it takes. -/
structure Event where
  call : Call
  now : U64

/-- The state after one call. -/
def step (s : RewardDistributionManager) (e : Event) : RewardDistributionManager :=
  match e.call with
  | .recordBlockReward blockHeight blockHash minerAddress transactionFees =>
    ((s.recordBlockReward blockHeight blockHash minerAddress transactionFees e.now).map
      Prod.snd).getD s
  | .processPayout minerAddress amount => (s.processPayout minerAddress amount).2

/-- Runs of the ledger: any calls in any order, while the history fits a vector. -/
abbrev RewardRun : RewardDistributionManager → List Event → RewardDistributionManager → Prop :=
  Run fun s e s' ↦ s' = s.step e ∧ s'.rewardHistory.length ≤ maxCapacity

end RewardDistributionManager
end SilverPow.Rewards
