import SilverPow.Base.Component
import SilverPow.Base.LockOrder
import SilverPow.Rewards.Payouts

/-!
# Overlapping calls of the reward ledger

The calls of `src/reward_distribution.rs:168–292` as programs over the locks of the ledger. A
reward is written to the accounts and then to the history, and a payout to the accounts and
then to the total, each under locks of their own. All calls take the locks in this order and
keep them, so that no call reads the statistics in between.
-/

namespace SilverPow.Rewards

open SilverPow.Base SilverPow.Base.Executor RewardDistributionManager

/-- The locks of a `RewardDistributionManager`, `src/reward_distribution.rs:129–140`. -/
inductive LedgerLock where
  | accounts
  | rewardHistory
  | totalDistributed
  deriving DecidableEq

/-- What the locks guard. -/
abbrev LedgerData : LedgerLock → Type
  | .accounts => Table String MinerRewardAccount
  | .rewardHistory => List BlockRewardRecord
  | .totalDistributed => U128

/-- The ledger as its locks see it. -/
def RewardDistributionManager.data (s : RewardDistributionManager) : ∀ l, LedgerData l
  | .accounts => s.accounts
  | .rewardHistory => s.rewardHistory
  | .totalDistributed => s.totalDistributed

/-- What a call returns; `R` are the results of the reading calls. A call that aborts returns
nothing. -/
inductive LedgerReply (R : Type) where
  | recorded (record : Option BlockRewardRecord)
  | paid (result : Except String Unit)
  | stats (stats : RewardStats)
  | value (r : R)

/-- A call of the ledger as a program. -/
abbrev LedgerProg (R : Type) : Type := Prog LedgerLock LedgerData (LedgerReply R)

variable {R : Type}

/-! ### The programs -/

/-- `record_block_reward`, `src/reward_distribution.rs:168–205`. -/
def recordBlockRewardProg (halvingInterval : U64) (baseBlockReward : U128) (blockHeight : U64)
    (blockHash minerAddress : String) (transactionFees : U128) (now : U64) : LedgerProg R :=
  match halvedReward halvingInterval baseBlockReward blockHeight with
  | none => .ret (.recorded none)
  | some baseReward =>
    let record := BlockRewardRecord.new blockHeight blockHash minerAddress baseReward
      transactionFees now
    .lock .accounts .write <| .get .accounts fun accounts ↦
    .set .accounts ((accounts.entryOrInsert minerAddress (.new minerAddress now)).2.insert
      minerAddress ((accounts.entryOrInsert minerAddress (.new minerAddress now)).1.addReward
        record.totalReward now)) <|
    .lock .rewardHistory .write <| .get .rewardHistory fun history ↦
    .set .rewardHistory (history ++ [record]) <|
    .ret (.recorded (some record))

/-- `process_payout`, `src/reward_distribution.rs:226–257`. -/
def processPayoutProg (minerAddress : String) (amount : U128) : LedgerProg R :=
  .lock .accounts .write <| .get .accounts fun accounts ↦
    match accounts.lookup minerAddress with
    | none => .ret (.paid (.error s!"Miner account not found: {minerAddress}"))
    | some account =>
      if account.balance < amount then
        .ret (.paid (.error
          s!"Insufficient balance: {account.balance.toNat} < {amount.toNat}"))
      else match account.markPaid amount with
      | .error e => .ret (.paid (.error e))
      | .ok paid =>
        .set .accounts (accounts.insert minerAddress paid) <|
        .lock .totalDistributed .write <| .get .totalDistributed fun total ↦
        .set .totalDistributed (Word.saturatingAdd total amount) <|
        .ret (.paid (.ok ()))

/-- `get_stats`, `src/reward_distribution.rs:275–292`. -/
def getStatsProg : LedgerProg R :=
  .lock .accounts .read <| .lock .rewardHistory .read <| .lock .totalDistributed .read <|
  .get .totalDistributed fun totalDistributed ↦
  .get .accounts fun accounts ↦ .get .rewardHistory fun rewardHistory ↦
  .ret (.stats (getStats ⟨accounts, rewardHistory, totalDistributed, 0, 0⟩))

/-- A call that reads what one lock guards: `get_miner_account`, `get_miner_balance`,
`get_all_accounts`, `get_miner_reward_history` and `get_total_distributed`,
`src/reward_distribution.rs:208–272`. -/
def readProg (l : LedgerLock) (f : LedgerData l → R) : LedgerProg R :=
  .lock l .read <| .get l fun d ↦ .ret (.value (f d))

/-- The calls of the ledger. -/
inductive LedgerCall (R : Type) where
  | recordBlockReward (blockHeight : U64) (blockHash minerAddress : String)
      (transactionFees : U128) (now : U64)
  | processPayout (minerAddress : String) (amount : U128)
  | getStats
  | read (l : LedgerLock) (f : LedgerData l → R)

/-- The program of a call. -/
def LedgerCall.prog (halvingInterval : U64) (baseBlockReward : U128) :
    LedgerCall R → LedgerProg R
  | .recordBlockReward blockHeight blockHash minerAddress transactionFees now =>
    recordBlockRewardProg halvingInterval baseBlockReward blockHeight blockHash minerAddress
      transactionFees now
  | .processPayout minerAddress amount => processPayoutProg minerAddress amount
  | .getStats => getStatsProg
  | .read l f => readProg l f

/-- A call that runs alone: what it returns, and the ledger after it. -/
def RewardDistributionManager.apply (s : RewardDistributionManager) :
    LedgerCall R → LedgerReply R × RewardDistributionManager
  | .recordBlockReward blockHeight blockHash minerAddress transactionFees now =>
    match s.recordBlockReward blockHeight blockHash minerAddress transactionFees now with
    | none => (.recorded none, s)
    | some (record, s') => (.recorded (some record), s')
  | .processPayout minerAddress amount =>
    (.paid (s.processPayout minerAddress amount).1, (s.processPayout minerAddress amount).2)
  | .getStats => (.stats s.getStats, s)
  | .read l f => (.value (f (s.data l)), s)

/-! ### What the programs do alone -/

/-- The ledger as its locks see it, after some of what they guard is written. -/
theorem RewardDistributionManager.data_ext {s : RewardDistributionManager}
    {data : ∀ l, LedgerData l} (ha : data .accounts = s.accounts)
    (hh : data .rewardHistory = s.rewardHistory)
    (ht : data .totalDistributed = s.totalDistributed) : data = s.data := by
  funext l
  cases l with
  | accounts => exact ha
  | rewardHistory => exact hh
  | totalDistributed => exact ht

/-- Alone, each program does what the call does to the ledger. -/
theorem exec_ledgerProg (s : RewardDistributionManager) (call : LedgerCall R) :
    (call.prog s.halvingInterval s.baseBlockReward).exec s.data =
      ((s.apply call).1, (s.apply call).2.data) := by
  cases call with
  | recordBlockReward blockHeight blockHash minerAddress transactionFees now =>
    simp only [LedgerCall.prog, recordBlockRewardProg, apply, recordBlockReward,
      calculateBlockReward]
    cases halvedReward s.halvingInterval s.baseBlockReward blockHeight with
    | none => rfl
    | some baseReward => exact Prod.ext rfl (data_ext rfl rfl rfl)
  | processPayout minerAddress amount =>
    have haccounts : s.data .accounts = s.accounts := rfl
    simp only [LedgerCall.prog, processPayoutProg, Prog.exec, apply, processPayout, haccounts]
    cases s.accounts.lookup minerAddress with
    | none => rfl
    | some account =>
      dsimp only
      by_cases hb : account.balance < amount
      · rw [if_pos hb, if_pos hb]
        rfl
      · rw [if_neg hb, if_neg hb]
        cases account.markPaid amount with
        | error e => rfl
        | ok paid => exact Prod.ext rfl (data_ext rfl rfl rfl)
  | getStats => rfl
  | read l f => rfl

/-- A call that changes the ledger is a step of a run. -/
theorem apply_eq_step (s : RewardDistributionManager) (call : LedgerCall R) :
    (s.apply call).2 = s ∨ ∃ e, (s.apply call).2 = s.step e := by
  cases call with
  | recordBlockReward blockHeight blockHash minerAddress transactionFees now =>
    right
    use ⟨.recordBlockReward blockHeight blockHash minerAddress transactionFees, now⟩
    simp only [apply, step]
    cases s.recordBlockReward blockHeight blockHash minerAddress transactionFees now with
    | none => rfl
    | some r => rfl
  | processPayout minerAddress amount => exact .inr ⟨⟨.processPayout minerAddress amount, 0⟩, rfl⟩
  | getStats => exact .inl rfl
  | read l f => exact .inl rfl

/-- What a step leaves: the parameters and the history so far. -/
theorem kept_step (s : RewardDistributionManager) (e : Event) :
    (s.step e).halvingInterval = s.halvingInterval ∧
      (s.step e).baseBlockReward = s.baseBlockReward ∧
      s.rewardHistory <+: (s.step e).rewardHistory := by
  obtain ⟨call, now⟩ := e
  cases call with
  | recordBlockReward blockHeight blockHash minerAddress transactionFees =>
    simp only [step, recordBlockReward]
    cases s.calculateBlockReward blockHeight with
    | none => exact ⟨rfl, rfl, List.prefix_rfl⟩
    | some baseReward => exact ⟨rfl, rfl, List.prefix_append _ _⟩
  | processPayout minerAddress amount =>
    simp only [step, processPayout]
    repeat' split
    all_goals exact ⟨rfl, rfl, List.prefix_rfl⟩

/-- What a call leaves. -/
theorem kept_apply (s : RewardDistributionManager) (call : LedgerCall R) :
    (s.apply call).2.halvingInterval = s.halvingInterval ∧
      (s.apply call).2.baseBlockReward = s.baseBlockReward ∧
      s.rewardHistory <+: (s.apply call).2.rewardHistory := by
  obtain h | ⟨e, h⟩ := apply_eq_step s call
  · rw [h]
    exact ⟨rfl, rfl, List.prefix_rfl⟩
  · rw [h]
    exact kept_step s e

section Programs

variable (halvingInterval : U64) (baseBlockReward : U128)

/-- Each call keeps its locks until it returns. -/
theorem twoPhase_ledgerProg (call : LedgerCall R) :
    (call.prog halvingInterval baseBlockReward).TwoPhase [] := by
  cases call with
  | recordBlockReward blockHeight blockHash minerAddress transactionFees now =>
    rw [LedgerCall.prog, recordBlockRewardProg]
    split <;> simp
  | processPayout minerAddress amount =>
    refine ⟨by simp, fun accounts ↦ ?_⟩
    dsimp only
    repeat' split
    all_goals simp
  | getStats => simp [LedgerCall.prog, getStatsProg]
  | read l f => simp [LedgerCall.prog, readProg]

/-- The order in which all calls take the locks. -/
def rankOfLedger : LedgerLock → Nat
  | .accounts => 1
  | .rewardHistory => 2
  | .totalDistributed => 3

/-- Each call takes the locks in this order. -/
theorem ordered_ledgerProg (call : LedgerCall R) :
    (call.prog halvingInterval baseBlockReward).Ordered rankOfLedger [] := by
  cases call with
  | recordBlockReward blockHeight blockHash minerAddress transactionFees now =>
    rw [LedgerCall.prog, recordBlockRewardProg]
    split <;> simp [rankOfLedger]
  | processPayout minerAddress amount =>
    refine ⟨by simp [rankOfLedger], fun accounts ↦ ?_⟩
    dsimp only
    repeat' split
    all_goals simp [rankOfLedger]
  | getStats => simp [LedgerCall.prog, getStatsProg, rankOfLedger]
  | read l f => cases l <;> simp [LedgerCall.prog, readProg, rankOfLedger]

/-- The programs are those of the calls. -/
theorem implements_ledger :
    Implements (fun s : RewardDistributionManager ↦
        s.halvingInterval = halvingInterval ∧ s.baseBlockReward = baseBlockReward)
      RewardDistributionManager.data (LedgerCall.prog (R := R) halvingInterval baseBlockReward)
      RewardDistributionManager.apply where
  exec s call hs := by
    obtain ⟨rfl, rfl⟩ := hs
    exact exec_ledgerProg s call
  keeps s call hs := by
    obtain ⟨hi, hb, -⟩ := kept_apply s call
    exact ⟨hi.trans hs.1, hb.trans hs.2⟩
  whole call := .inl (twoPhase_ledgerProg halvingInterval baseBlockReward call)

end Programs

/-! ### What the statistics show -/

/-- The statistics agree with each other. -/
def RewardStats.Balanced (stats : RewardStats) : Prop :=
  stats.totalRewardsEarned.toNat =
      stats.totalRewardsPending.toNat + stats.totalRewardsDistributed.toNat ∧
    stats.totalBlocksMined.toNat = stats.rewardHistorySize

/-- The history fits a vector, and its rewards sum to an amount. -/
def Fits (rewardHistory : List BlockRewardRecord) : Prop :=
  rewardHistory.length ≤ maxCapacity ∧ earned rewardHistory < 2 ^ 128

/-- The first records of a history that fits fit. -/
theorem Fits.of_prefix {records records' : List BlockRewardRecord} (h : Fits records')
    (hp : records <+: records') : Fits records := by
  refine ⟨hp.length_le.trans h.1, lt_of_le_of_lt ?_ h.2⟩
  exact (hp.sublist.map _).sum_le_sum fun _ _ ↦ Nat.zero_le _

/-- While the history fits, the books are kept and the statistics read so far are balanced. -/
def Shown (history : List (Nat × LedgerReply R)) (s : RewardDistributionManager) : Prop :=
  Fits s.rewardHistory → Books s ∧ ∀ i stats, (i, .stats stats) ∈ history → stats.Balanced

/-- One more call. -/
theorem Shown.step {history : List (Nat × LedgerReply R)} {s : RewardDistributionManager}
    (h : Shown history s) (i : Nat) (call : LedgerCall R) :
    Shown (history ++ [(i, (s.apply call).1)]) (s.apply call).2 := by
  intro hfits
  obtain ⟨hbooks, hstats⟩ := h (hfits.of_prefix (kept_apply s call).2.2)
  refine ⟨?_, fun j stats hj ↦ ?_⟩
  · obtain hs | ⟨e, hs⟩ := apply_eq_step s call
    · rwa [hs]
    · rw [hs] at hfits ⊢
      exact books_step hbooks e hfits.1
  · obtain hj | hj := List.mem_append.mp hj
    · exact hstats j stats hj
    · rw [List.mem_singleton, Prod.mk.injEq] at hj
      cases call with
      | getStats =>
        cases hj.2
        have hb := ledgerBalanced_of_books hbooks hfits.2
        exact ⟨hb.earned, hb.mined⟩
      | recordBlockReward blockHeight blockHash minerAddress transactionFees now =>
        simp only [apply] at hj
        split at hj <;> cases hj.2
      | processPayout | read => cases hj.2

/-- Overlapping calls of a ledger always return, and whatever they interleave with, the
statistics that they return and the ledger that they leave are balanced, while the history
fits. -/
theorem stats_balanced {halvingInterval : U64} {baseBlockReward : U128} {es : List Event}
    {s : RewardDistributionManager} (h : RewardRun (.new halvingInterval baseBlockReward) es s)
    (calls : List (LedgerCall R)) :
    AllReturn (start s.data (calls.map (·.prog s.halvingInterval s.baseBlockReward))) ∧
    ∀ is x, Run Step (start s.data (calls.map (·.prog s.halvingInterval s.baseBlockReward))) is x →
      x.Finished → Fits (x.data .rewardHistory) →
        (∀ t ∈ x.tasks, ∀ stats, t.prog = .ret (.stats stats) → stats.Balanced) ∧
        ∃ s' : RewardDistributionManager, x.data = s'.data ∧ LedgerBalanced s' := by
  refine ⟨allReturn_of_ordered rankOfLedger (fun p hp ↦ ?_) _, fun is x hr hfin hfits ↦ ?_⟩
  · obtain ⟨call, -, rfl⟩ := List.mem_map.mp hp
    exact ordered_ledgerProg _ _ call
  obtain ⟨history, s', ho⟩ :=
    (implements_ledger s.halvingInterval s.baseBlockReward).exists_callOrder ⟨rfl, rfl⟩ hr hfin
  have hshown : Shown history s' := by
    refine ho.run.historyInvariant Shown (fun _ ↦ ⟨books_of_run h, fun _ _ hi ↦ (nomatch hi)⟩) ?_
    rintro history t ⟨i, a⟩ t' ht ⟨call, -, happly⟩
    have hstep := ht.step i call
    rwa [happly] at hstep
  rw [ho.reached] at hfits
  refine ⟨fun t ht stats hret ↦ ?_,
    s', ho.reached, ledgerBalanced_of_books (hshown hfits).1 hfits.2⟩
  obtain ⟨i, hi⟩ := List.getElem?_of_mem ht
  have hlt : i < calls.length := by
    have hlen := length_tasks_of_run hr
    rw [start, List.length_map, List.length_map] at hlen
    exact hlen ▸ (List.getElem?_eq_some_iff.mp hi).1
  exact (hshown hfits).2 i stats
    (ho.mem_of_ret (List.getElem?_eq_getElem hlt) (twoPhase_ledgerProg _ _ _) hi hret)

/-- A reward and a payout, while the statistics are read. -/
def statsBetween : List (LedgerCall Unit) :=
  [.recordBlockReward 1 "h" "miner" 7 5, .processPayout "miner" 3, .getStats]

/-- In the initial ledger these are balanced. -/
theorem stats_balanced_between :
    AllReturn (start (new 210_000 5_000_000_000).data
      (statsBetween.map (·.prog 210_000 5_000_000_000))) ∧
    ∀ is x, Run Step (start (new 210_000 5_000_000_000).data
        (statsBetween.map (·.prog 210_000 5_000_000_000))) is x → x.Finished →
      Fits (x.data .rewardHistory) →
        (∀ t ∈ x.tasks, ∀ stats, t.prog = .ret (.stats stats) → stats.Balanced) ∧
        ∃ s' : RewardDistributionManager, x.data = s'.data ∧ LedgerBalanced s' :=
  stats_balanced .nil statsBetween

end SilverPow.Rewards
