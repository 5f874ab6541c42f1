import SilverPow.Rewards.Books

/-!
# What the ledger guarantees

While the recorded rewards sum to an amount, the accounts, the history and the total paid
out agree exactly, and so do the statistics. However far the counters saturate, no miner
is paid more than was recorded, and a payout succeeds exactly when the balance covers it.
-/

namespace SilverPow.Rewards

open SilverPow.Base RewardDistributionManager

/-- An account whose counters are exact. -/
structure AccountBalanced (account : MinerRewardAccount) (records : List BlockRewardRecord) :
    Prop where
  total : account.totalRewards.toNat =
    account.pendingRewards.toNat + account.paidRewards.toNat
  balance : account.balance = account.pendingRewards
  earned : account.totalRewards.toNat = earned records
  found : account.blocksFound.toNat = records.length

/-- A ledger whose accounts, history, total paid out and statistics agree exactly. -/
structure LedgerBalanced (s : RewardDistributionManager) : Prop where
  account : ∀ miner account, s.accounts.lookup miner = some account →
    AccountBalanced account (s.recordsOf miner)
  distributed : s.totalDistributed.toNat = s.accounts.total (·.paidRewards.toNat)
  earned : s.getStats.totalRewardsEarned.toNat =
    s.getStats.totalRewardsPending.toNat + s.getStats.totalRewardsDistributed.toNat
  mined : s.getStats.totalBlocksMined.toNat = s.getStats.rewardHistorySize

/-- The records of one miner earn at most what all records earn. -/
theorem earned_recordsOf_le (s : RewardDistributionManager) (miner : String) :
    earned (s.recordsOf miner) ≤ earned s.rewardHistory :=
  (List.filter_sublist.map _).sum_le_sum fun _ _ ↦ Nat.zero_le _

/-- The books of an account are exact while its true sum is an amount. -/
theorem accountBalanced_of_books {account : MinerRewardAccount}
    {records : List BlockRewardRecord} (h : AccountBooks account records)
    (hsum : earned records < 2 ^ 128) : AccountBalanced account records := by
  have ht := h.total
  have he := h.exact hsum
  have hb := toNat_balance h
  exact ⟨by omega, BitVec.eq_of_toNat_eq (by omega), by omega, h.found⟩

/-- The books of the ledger are exact while all recorded rewards sum to an amount. -/
theorem ledgerBalanced_of_books {s : RewardDistributionManager} (h : Books s)
    (hsum : earned s.rewardHistory < 2 ^ 128) : LedgerBalanced s := by
  have ha (miner : String) (account : MinerRewardAccount)
      (hl : s.accounts.lookup miner = some account) :
      AccountBalanced account (s.recordsOf miner) :=
    accountBalanced_of_books (h.account miner account hl)
      ((earned_recordsOf_le s miner).trans_lt hsum)
  have htotal : s.accounts.total (·.totalRewards.toNat) =
      s.accounts.total (·.pendingRewards.toNat) + s.accounts.total (·.paidRewards.toNat) := by
    rw [← Table.total_add]
    exact Table.total_congr fun miner account hl ↦ (ha miner account hl).total
  have hle := h.earned_le
  have hd := h.distributed
  have hm := h.mined
  have hf := h.fits
  constructor
  · exact ha
  · omega
  · change (s.accounts.total MinerRewardAccount.totalRewards).toNat =
      (s.accounts.total MinerRewardAccount.pendingRewards).toNat + s.totalDistributed.toNat
    rw [Table.toNat_total, Table.toNat_total, Nat.mod_eq_of_lt (by omega),
      Nat.mod_eq_of_lt (by omega)]
    omega
  · change (s.accounts.total MinerRewardAccount.blocksFound).toNat = s.rewardHistory.length
    unfold maxCapacity at hf
    rw [Table.toNat_total, Nat.mod_eq_of_lt (by omega), hm]

/-- In every run whose recorded rewards sum to an amount, the ledger balances. -/
theorem ledgerBalanced_of_run {halvingInterval : U64} {baseBlockReward : U128}
    {es : List Event} {s : RewardDistributionManager}
    (h : RewardRun (.new halvingInterval baseBlockReward) es s)
    (hsum : earned s.rewardHistory < 2 ^ 128) : LedgerBalanced s :=
  ledgerBalanced_of_books (books_of_run h) hsum

/-- A reward of 50 SLVR and fees for one block, and a payout of 3. -/
theorem ledgerBalanced_of_one_block :
    LedgerBalanced (((RewardDistributionManager.new 210_000 5_000_000_000).step
      ⟨.recordBlockReward 1 "h" "miner" 7, 5⟩).step ⟨.processPayout "miner" 3, 6⟩) :=
  ledgerBalanced_of_run (.snoc (.snoc .nil ⟨rfl, by decide +kernel⟩) ⟨rfl, by decide +kernel⟩)
    (by decide +kernel)

/-- What a miner can be paid, saturated or not. -/
structure PayoutsCovered (s : RewardDistributionManager) (miner : String) : Prop where
  /-- No more was paid than was recorded. -/
  paid_le : ∀ account, s.accounts.lookup miner = some account →
    account.paidRewards.toNat ≤ earned (s.recordsOf miner)
  /-- A payout succeeds exactly when an account covers it. -/
  ok_iff : ∀ amount, (s.processPayout miner amount).1 = .ok () ↔
    ∃ account, s.accounts.lookup miner = some account ∧
      (amount.toNat : Int) ≤ account.totalRewards.toNat - account.paidRewards.toNat
  /-- A payout adds the amount to what was paid, without saturating. -/
  paid_add : ∀ amount, (s.processPayout miner amount).1 = .ok () →
    ∃ account account', s.accounts.lookup miner = some account ∧
      (s.processPayout miner amount).2.accounts.lookup miner = some account' ∧
      account'.paidRewards.toNat = account.paidRewards.toNat + amount.toNat
  /-- A payout that fails changes nothing. -/
  unchanged : ∀ amount e, (s.processPayout miner amount).1 = .error e →
    (s.processPayout miner amount).2 = s

/-- The books cover every payout. -/
theorem payoutsCovered_of_books {s : RewardDistributionManager} (h : Books s) (miner : String) :
    PayoutsCovered s miner where
  paid_le account hl := by
    have ha := h.account miner account hl
    have := ha.total
    have := ha.paid_le
    omega
  ok_iff amount := by
    have hcover (account : MinerRewardAccount) (hl : s.accounts.lookup miner = some account) :
        (amount.toNat : Int) ≤ account.totalRewards.toNat - account.paidRewards.toNat ↔
          amount.toNat ≤ account.balance.toNat := by
      have := toNat_balance (h.account miner account hl)
      omega
    obtain ⟨hn, e, he⟩ | ⟨account, hl, ha, he⟩ := processPayout_cases h miner amount
    · rw [he]
      refine ⟨fun hx ↦ (nomatch hx), ?_⟩
      rintro ⟨account, hl, ha⟩
      exact absurd ((hcover account hl).mp ha) (Nat.not_le_of_lt (hn account hl))
    · rw [he]
      exact ⟨fun _ ↦ ⟨account, hl, (hcover account hl).mpr ha⟩, fun _ ↦ rfl⟩
  paid_add amount hok := by
    obtain ⟨-, e, he⟩ | ⟨account, hl, ha, he⟩ := processPayout_cases h miner amount
    · rw [he] at hok
      cases hok
    · rw [he]
      exact ⟨account, account.payOut amount, hl, Finmap.lookup_insert _,
        toNat_paidRewards_payOut (h.account miner account hl) ha⟩
  unchanged amount e herr := by
    obtain ⟨-, e, he⟩ | ⟨account, -, -, he⟩ := processPayout_cases h miner amount
    · rw [he]
    · rw [he] at herr
      cases herr

/-- In every run, with any fees and amounts, every payout is covered. -/
theorem payoutsCovered_of_run {halvingInterval : U64} {baseBlockReward : U128}
    {es : List Event} {s : RewardDistributionManager}
    (h : RewardRun (.new halvingInterval baseBlockReward) es s) (miner : String) :
    PayoutsCovered s miner :=
  payoutsCovered_of_books (books_of_run h) miner

/-- Two rewards whose fees are the largest amount, so that both counters saturate. -/
theorem payoutsCovered_of_saturated :
    PayoutsCovered (((RewardDistributionManager.new 210_000 5_000_000_000).step
      ⟨.recordBlockReward 1 "h" "miner" (BitVec.allOnes 128), 5⟩).step
      ⟨.recordBlockReward 2 "i" "miner" (BitVec.allOnes 128), 6⟩) "miner" :=
  payoutsCovered_of_run (.snoc (.snoc .nil ⟨rfl, by decide +kernel⟩) ⟨rfl, by decide +kernel⟩) _

end SilverPow.Rewards
