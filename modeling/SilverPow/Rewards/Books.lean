import SilverPow.Rewards.Distribution

/-!
# The books of the reward ledger

The saturating counters of an account follow the true sum of the rewards recorded for its
miner: the total is that sum, capped; what was paid is covered by the total; and pending
and paid together cover the total even after either saturated. While the true sum is an
amount, nothing saturates and the three stores of the ledger agree exactly.
-/

namespace SilverPow.Rewards

open SilverPow.Base RewardDistributionManager

/-- True sum of the total rewards of some records. -/
def earned (records : List BlockRewardRecord) : Nat :=
  (records.map fun r ↦ r.totalReward.toNat).sum

/-- The records of one miner, oldest first. -/
def RewardDistributionManager.recordsOf (s : RewardDistributionManager) (miner : String) :
    List BlockRewardRecord :=
  s.rewardHistory.filter (·.minerAddress == miner)

/-- What holds between an account and the records of its miner, saturated or not. -/
structure AccountBooks (account : MinerRewardAccount) (records : List BlockRewardRecord) :
    Prop where
  total : account.totalRewards.toNat = min (earned records) (2 ^ 128 - 1)
  paid_le : account.paidRewards.toNat ≤ account.totalRewards.toNat
  total_le : account.totalRewards.toNat ≤
    account.pendingRewards.toNat + account.paidRewards.toNat
  exact : earned records < 2 ^ 128 →
    account.pendingRewards.toNat + account.paidRewards.toNat = earned records
  found : account.blocksFound.toNat = records.length

/-- What holds between the three stores of the ledger, saturated or not. -/
structure Books (s : RewardDistributionManager) : Prop where
  account : ∀ miner account, s.accounts.lookup miner = some account →
    AccountBooks account (s.recordsOf miner)
  absent : ∀ miner, s.accounts.lookup miner = none → s.recordsOf miner = []
  distributed : s.totalDistributed.toNat =
    min (s.accounts.total (·.paidRewards.toNat)) (2 ^ 128 - 1)
  mined : s.accounts.total (·.blocksFound.toNat) = s.rewardHistory.length
  earned_le : s.accounts.total (·.totalRewards.toNat) ≤ earned s.rewardHistory
  fits : s.rewardHistory.length ≤ maxCapacity

/-! ### One account -/

/-- The account after a payment. -/
def MinerRewardAccount.payOut (account : MinerRewardAccount) (amount : U128) :
    MinerRewardAccount :=
  { account with
    pendingRewards := Word.saturatingSub account.pendingRewards amount
    paidRewards := Word.saturatingAdd account.paidRewards amount }

@[simp] theorem payOut_totalRewards (account : MinerRewardAccount) (amount : U128) :
    (account.payOut amount).totalRewards = account.totalRewards := rfl

@[simp] theorem payOut_blocksFound (account : MinerRewardAccount) (amount : U128) :
    (account.payOut amount).blocksFound = account.blocksFound := rfl

/-- A record adds its reward to the sum. -/
theorem earned_append (records : List BlockRewardRecord) (r : BlockRewardRecord) :
    earned (records ++ [r]) = earned records + r.totalReward.toNat := by
  simp [earned]

/-- A new account has no records. -/
theorem accountBooks_new (address : String) (now : U64) : AccountBooks (.new address now) [] where
  total := rfl
  paid_le := Nat.le_refl _
  total_le := Nat.zero_le _
  exact := fun _ ↦ rfl
  found := rfl

section Account

variable {account : MinerRewardAccount} {records : List BlockRewardRecord}
  (h : AccountBooks account records)
include h

/-- A reward is booked with its record. -/
theorem accountBooks_addReward (hl : records.length < maxCapacity) (r : BlockRewardRecord)
    (now : U64) : AccountBooks (account.addReward r.totalReward now) (records ++ [r]) := by
  obtain ⟨ht, hp, hl', he, hf⟩ := h
  have hr := r.totalReward.isLt
  constructor <;>
    simp only [MinerRewardAccount.addReward, Word.toNat_saturatingAdd, earned_append,
      List.length_append, List.length_singleton, hf]
  · omega
  · omega
  · omega
  · intro hx
    have := he (by omega)
    omega
  · unfold maxCapacity at hl
    rw [show (1 : U64).toNat = 1 from rfl]
    omega

/-- The balance is the true difference of total and paid. -/
theorem toNat_balance :
    account.balance.toNat + account.paidRewards.toNat = account.totalRewards.toNat := by
  have := h.paid_le
  rw [MinerRewardAccount.balance, Word.toNat_saturatingSub]
  omega

/-- An amount within the balance is pending, so that the second check passes. -/
theorem markPaid_of_le {amount : U128} (ha : amount.toNat ≤ account.balance.toNat) :
    account.markPaid amount = .ok (account.payOut amount) := by
  have hb := toNat_balance h
  have ht := h.total_le
  have hn : ¬account.pendingRewards < amount := by
    rw [BitVec.lt_def]
    omega
  rw [MinerRewardAccount.markPaid, if_neg hn]
  rfl

/-- A payment within the balance does not saturate what was paid. -/
theorem toNat_paidRewards_payOut {amount : U128} (ha : amount.toNat ≤ account.balance.toNat) :
    (account.payOut amount).paidRewards.toNat = account.paidRewards.toNat + amount.toNat := by
  have hb := toNat_balance h
  have ht := account.totalRewards.isLt
  exact Word.toNat_saturatingAdd_of_lt (by omega)

/-- A payment within the balance keeps the books. -/
theorem accountBooks_payOut {amount : U128} (ha : amount.toNat ≤ account.balance.toNat) :
    AccountBooks (account.payOut amount) records := by
  have hb := toNat_balance h
  have hp := toNat_paidRewards_payOut h ha
  obtain ⟨ht, -, hl, he, hf⟩ := h
  have hd : (account.payOut amount).pendingRewards.toNat =
      account.pendingRewards.toNat - amount.toNat := Word.toNat_saturatingSub _ _
  constructor
  · exact ht
  · rw [payOut_totalRewards]
    omega
  · rw [payOut_totalRewards]
    omega
  · intro hx
    have := he hx
    omega
  · exact hf

end Account

/-! ### One call -/

/-- A payout, taken apart: it fails and changes nothing, or an account has the amount as
its balance and both checks pass. -/
theorem processPayout_cases {s : RewardDistributionManager} (h : Books s) (miner : String)
    (amount : U128) :
    ((∀ account, s.accounts.lookup miner = some account →
        account.balance.toNat < amount.toNat) ∧
      ∃ e, s.processPayout miner amount = (.error e, s)) ∨
    (∃ account, s.accounts.lookup miner = some account ∧
      amount.toNat ≤ account.balance.toNat ∧
      s.processPayout miner amount = (.ok (), { s with
        accounts := s.accounts.insert miner (account.payOut amount)
        totalDistributed := Word.saturatingAdd s.totalDistributed amount })) := by
  unfold processPayout
  cases hl : s.accounts.lookup miner with
  | none => exact .inl ⟨fun _ ha ↦ (nomatch ha), _, rfl⟩
  | some account =>
    dsimp only
    split
    · next hb =>
      refine .inl ⟨?_, _, rfl⟩
      rintro _ ⟨⟩
      exact BitVec.lt_def.mp hb
    · next hb =>
      have ha : amount.toNat ≤ account.balance.toNat := by
        rw [BitVec.lt_def] at hb
        omega
      refine .inr ⟨account, rfl, ha, ?_⟩
      rw [markPaid_of_le (h.account miner account hl) ha]

/-- A new record is the last record of its miner and of no one else. -/
theorem recordsOf_credit (s : RewardDistributionManager) (record : BlockRewardRecord) (now : U64)
    (miner : String) :
    (s.credit record now).recordsOf miner =
      if miner = record.minerAddress then s.recordsOf miner ++ [record] else s.recordsOf miner :=
  Table.filter_key_concat BlockRewardRecord.minerAddress s.rewardHistory record miner

/-- The account of the next record's miner, fresh or not, is in order. -/
theorem accountBooks_entry {s : RewardDistributionManager} (h : Books s) (miner : String)
    (now : U64) :
    AccountBooks (s.accounts.entryOrInsert miner (.new miner now)).1 (s.recordsOf miner) := by
  rw [Table.entryOrInsert_fst]
  cases hl : s.accounts.lookup miner with
  | none =>
    rw [h.absent miner hl]
    exact accountBooks_new miner now
  | some account => exact h.account miner account hl

/-- Sums over the accounts after a record: the quantity of the miner is replaced. -/
theorem total_credit (s : RewardDistributionManager) (record : BlockRewardRecord) (now : U64)
    {f : MinerRewardAccount → Nat} (hf : f (.new record.minerAddress now) = 0) :
    (s.credit record now).accounts.total f +
        f (s.accounts.entryOrInsert record.minerAddress (.new record.minerAddress now)).1 =
      s.accounts.total f + f ((s.accounts.entryOrInsert record.minerAddress
        (.new record.minerAddress now)).1.addReward record.totalReward now) := by
  have hv := Table.lookup_entryOrInsert s.accounts record.minerAddress
    (MinerRewardAccount.new record.minerAddress now)
  have ht := Table.total_insert f
    (s.accounts.entryOrInsert record.minerAddress (.new record.minerAddress now)).2
    record.minerAddress ((s.accounts.entryOrInsert record.minerAddress
      (.new record.minerAddress now)).1.addReward record.totalReward now)
  rwa [Table.valueAt, hv, Option.elim_some, Table.total_entryOrInsert f _ _ hf] at ht

/-- Recording a reward keeps the books while the history fits. -/
theorem books_credit {s : RewardDistributionManager} (h : Books s) (record : BlockRewardRecord)
    (now : U64) (hfit : s.rewardHistory.length < maxCapacity) : Books (s.credit record now) := by
  have hb := accountBooks_entry h record.minerAddress now
  have hlen : (s.recordsOf record.minerAddress).length < maxCapacity :=
    (List.length_filter_le _ _).trans_lt hfit
  have ha := accountBooks_addReward hb hlen record now
  have htotal (f : MinerRewardAccount → Nat) := total_credit s record now (f := f)
  constructor
  · apply Table.forall_lookup_insert
    · rw [recordsOf_credit, if_pos rfl]
      exact ha
    · intro miner account hm hl
      rw [recordsOf_credit, if_neg hm]
      exact h.account miner account ((Table.lookup_entryOrInsert_of_ne _ hm).symm.trans hl)
  · apply Table.forall_lookup_insert_none
    intro miner hm hl
    rw [recordsOf_credit, if_neg hm]
    exact h.absent miner ((Table.lookup_entryOrInsert_of_ne _ hm).symm.trans hl)
  · have ht := htotal (·.paidRewards.toNat) rfl
    have hd := h.distributed
    change s.totalDistributed.toNat = _
    dsimp only [MinerRewardAccount.addReward] at ht
    omega
  · have ht := htotal (·.blocksFound.toNat) rfl
    have hm := h.mined
    have hf := hb.found
    have hf' := ha.found
    change _ = (s.rewardHistory ++ [record]).length
    rw [List.length_append, List.length_singleton] at hf' ⊢
    omega
  · have ht := htotal (·.totalRewards.toNat) rfl
    have he := h.earned_le
    change _ ≤ earned (s.rewardHistory ++ [record])
    rw [earned_append]
    dsimp only [MinerRewardAccount.addReward] at ht
    rw [Word.toNat_saturatingAdd] at ht
    omega
  · change (s.rewardHistory ++ [record]).length ≤ maxCapacity
    rw [List.length_append, List.length_singleton]
    omega

/-- Paying out within the balance keeps the books. -/
theorem books_pay {s : RewardDistributionManager} (h : Books s) {miner : String}
    {account : MinerRewardAccount} (hl : s.accounts.lookup miner = some account) {amount : U128}
    (ha : amount.toNat ≤ account.balance.toNat) :
    Books { s with
      accounts := s.accounts.insert miner (account.payOut amount)
      totalDistributed := Word.saturatingAdd s.totalDistributed amount } := by
  have hb := h.account miner account hl
  have hp := toNat_paidRewards_payOut hb ha
  have htotal (f : MinerRewardAccount → Nat) :
      Table.total f (s.accounts.insert miner (account.payOut amount)) + f account =
        s.accounts.total f + f (account.payOut amount) := by
    have ht := Table.total_insert f s.accounts miner (account.payOut amount)
    rwa [Table.valueAt, hl, Option.elim_some] at ht
  constructor
  · apply Table.forall_lookup_insert
    · exact accountBooks_payOut hb ha
    · exact fun m acc _ hlm ↦ h.account m acc hlm
  · apply Table.forall_lookup_insert_none
    exact fun m _ hlm ↦ h.absent m hlm
  · have ht := htotal (·.paidRewards.toNat)
    have hd := h.distributed
    dsimp only at ht ⊢
    rw [Word.toNat_saturatingAdd]
    omega
  · have ht := htotal (·.blocksFound.toNat)
    have hm := h.mined
    rw [payOut_blocksFound] at ht
    dsimp only
    omega
  · have ht := htotal (·.totalRewards.toNat)
    have he := h.earned_le
    rw [payOut_totalRewards] at ht
    dsimp only
    omega
  · exact h.fits

/-- A fresh ledger is in order. -/
theorem books_new (halvingInterval : U64) (baseBlockReward : U128) :
    Books (.new halvingInterval baseBlockReward) where
  account := fun _ _ hl ↦ by cases hl
  absent := fun _ _ ↦ rfl
  distributed := rfl
  mined := rfl
  earned_le := Nat.le_refl _
  fits := Nat.zero_le _

/-- Every call keeps the books while the history fits. -/
theorem books_step {s : RewardDistributionManager} (h : Books s) (e : Event)
    (hfit : (s.step e).rewardHistory.length ≤ maxCapacity) : Books (s.step e) := by
  obtain ⟨call, now⟩ := e
  unfold step at hfit ⊢
  cases call with
  | recordBlockReward blockHeight blockHash minerAddress transactionFees =>
    dsimp only at hfit ⊢
    cases hr : s.recordBlockReward blockHeight blockHash minerAddress transactionFees now with
    | none => exact h
    | some r =>
      rw [hr] at hfit
      unfold recordBlockReward at hr
      obtain ⟨base, -, hr⟩ := Option.bind_eq_some_iff.mp hr
      cases hr
      refine books_credit h _ _ ?_
      have hl : (s.rewardHistory ++ [_]).length ≤ maxCapacity := hfit
      rw [List.length_append, List.length_singleton] at hl
      exact hl
  | processPayout miner amount =>
    obtain ⟨-, e, he⟩ | ⟨account, hl, ha, he⟩ := processPayout_cases h miner amount
    · dsimp only
      rw [he]
      exact h
    · dsimp only
      rw [he]
      exact books_pay h hl ha

/-- Every run from a fresh ledger keeps the books. -/
theorem books_of_run {halvingInterval : U64} {baseBlockReward : U128} {es : List Event}
    {s : RewardDistributionManager} (h : RewardRun (.new halvingInterval baseBlockReward) es s) :
    Books s := by
  refine h.invariant Books (books_new _ _) ?_
  rintro s e _ hb ⟨rfl, hfit⟩
  exact books_step hb e hfit

end SilverPow.Rewards
