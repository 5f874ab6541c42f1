import SilverPow.Ledger.Histories

/-!
# Nonces and statistics

Every account record that is written back carries the nonce that its address has, except
that a confirmed execution adds one to the nonce of the sender, after the outputs are
credited. So a nonce counts the confirmed executions of its address.
-/

namespace SilverPow.Ledger

open SilverPow.Base TransactionEngine

/-- `TransactionEngineStats`, `src/transaction_engine.rs:906–915`. -/
structure TransactionEngineStats where
  totalAccounts : Nat
  totalBalance : U128
  totalTransactions : U64
  mempoolSize : Nat
  executedTransactions : Nat
  failedTransactions : Nat

/-- `get_stats`, `src/transaction_engine.rs:829–849`; both sums wrap. -/
def TransactionEngine.getStats (s : TransactionEngine) : TransactionEngineStats where
  totalAccounts := s.accounts.entries.card
  totalBalance := Table.total (·.balance) s.accounts
  totalTransactions := Table.total (·.nonce) s.accounts
  mempoolSize := s.mempool.length
  executedTransactions := s.executed.length
  failedTransactions := s.executed.countP (·.status == .failed)

/-- True sum of all nonces. -/
def nonceSum (accounts : Accounts) : Nat :=
  Table.total (fun account ↦ account.nonce.toNat) accounts

/-- Creating a missing account leaves the sum of the nonces as it was. -/
theorem nonceSum_getOrCreateAccount (accounts : Accounts) (address : String) (now : U64) :
    nonceSum (getOrCreateAccount accounts address now).2 = nonceSum accounts :=
  Table.total_entryOrInsert _ accounts address rfl

/-- Storing an account sets the nonce of its address only. -/
theorem nonceOf_storeAccount (accounts : Accounts) (account : AccountState) (a : String) :
    nonceOf (storeAccount accounts account) a =
      if a = account.address then account.nonce.toNat else nonceOf accounts a :=
  Table.valueAt_insert _ accounts account.address account a

/-- Storing an account replaces its share of the sum of the nonces. -/
theorem nonceSum_storeAccount (accounts : Accounts) (account : AccountState) :
    nonceSum (storeAccount accounts account) + nonceOf accounts account.address =
      nonceSum accounts + account.nonce.toNat :=
  Table.total_insert _ accounts account.address account

/-- The account handed out for an address holds the nonce recorded for it. -/
theorem nonce_getOrCreateAccount (accounts : Accounts) (address : String) (now : U64) :
    (getOrCreateAccount accounts address now).1.nonce.toNat = nonceOf accounts address := by
  unfold getOrCreateAccount nonceOf Table.valueAt
  rw [Table.entryOrInsert_fst]
  cases accounts.lookup address <;> rfl

section Confirmed

variable (now : U64) {accounts : Accounts} (h : Keyed accounts)
include h

/-- An output changes no nonce. -/
theorem nonceOf_creditOutput (output : TransactionOutput) (a : String) :
    nonceOf (creditOutput now accounts output) a = nonceOf accounts a := by
  have ha := address_getOrCreateAccount h output.recipient now
  simp only [creditOutput, AccountState.addBalance, nonceOf_storeAccount, ha,
    nonce_getOrCreateAccount, nonceOf_getOrCreateAccount]
  split
  · next ha => rw [ha]
  · rfl

/-- An output leaves the sum of the nonces as it was. -/
theorem nonceSum_creditOutput (output : TransactionOutput) :
    nonceSum (creditOutput now accounts output) = nonceSum accounts := by
  have hn : (getOrCreateAccount accounts output.recipient now).1.nonce.toNat =
      nonceOf accounts (getOrCreateAccount accounts output.recipient now).1.address := by
    rw [nonce_getOrCreateAccount, address_getOrCreateAccount h]
  have hs := nonceSum_storeAccount (getOrCreateAccount accounts output.recipient now).2
    ((getOrCreateAccount accounts output.recipient now).1.addBalance output.amount)
  rw [nonceSum_getOrCreateAccount, nonceOf_getOrCreateAccount] at hs
  change nonceSum (creditOutput now accounts output) + nonceOf accounts
    (getOrCreateAccount accounts output.recipient now).1.address = _ + _ at hs
  rw [← hn] at hs
  exact Nat.add_right_cancel hs

omit h in
/-- The output loop changes no nonce, and not their sum. -/
theorem nonces_foldl_creditOutput (outputs : List TransactionOutput) (h : Keyed accounts) :
    (∀ a, nonceOf (outputs.foldl (creditOutput now) accounts) a = nonceOf accounts a) ∧
      nonceSum (outputs.foldl (creditOutput now) accounts) = nonceSum accounts := by
  induction outputs generalizing accounts with
  | nil => exact ⟨fun _ ↦ rfl, rfl⟩
  | cons output outputs ih =>
    obtain ⟨hn, hs⟩ := ih (keyed_creditOutput now h output)
    refine ⟨fun a ↦ ?_, ?_⟩
    · rw [List.foldl_cons, hn, nonceOf_creditOutput now h]
    · rw [List.foldl_cons, hs, nonceSum_creditOutput now h]

/-- A confirmed execution adds one to the nonce of the sender, unless it is the largest. -/
theorem nonces_confirmedAccounts {tx : Transaction}
    (hlt : nonceOf accounts tx.sender + 1 < 2 ^ 64) :
    (∀ a, nonceOf (confirmedAccounts accounts tx now) a =
      nonceOf accounts a + if tx.sender = a then 1 else 0) ∧
      nonceSum (confirmedAccounts accounts tx now) = nonceSum accounts + 1 := by
  obtain ⟨hn, hs⟩ := nonces_foldl_creditOutput now tx.outputs
    (keyed_getOrCreateAccount h tx.sender now)
  have hnonce : (Word.saturatingAdd (getOrCreateAccount accounts tx.sender now).1.nonce 1).toNat =
      nonceOf accounts tx.sender + 1 := by
    rw [Word.toNat_saturatingAdd_of_lt] <;> rw [nonce_getOrCreateAccount]
    · rfl
    · exact hlt
  constructor
  · intro a
    rw [confirmedAccounts, nonceOf_storeAccount, address_getOrCreateAccount h, hnonce, hn,
      nonceOf_getOrCreateAccount]
    by_cases ha : a = tx.sender
    · rw [if_pos ha, if_pos ha.symm, ha]
    · rw [if_neg ha, if_neg (Ne.symm ha), Nat.add_zero]
  · have ht := nonceSum_storeAccount
      (tx.outputs.foldl (creditOutput now) (getOrCreateAccount accounts tx.sender now).2)
      { (getOrCreateAccount accounts tx.sender now).1 with
        balance := Word.saturatingSub (getOrCreateAccount accounts tx.sender now).1.balance
          tx.totalNeeded
        nonce := Word.saturatingAdd (getOrCreateAccount accounts tx.sender now).1.nonce 1 }
    rw [address_getOrCreateAccount h, hn, hs, hnonce, nonceOf_getOrCreateAccount,
      nonceSum_getOrCreateAccount] at ht
    change nonceSum (confirmedAccounts accounts tx now) + _ = _ at ht
    omega

end Confirmed

section Runs

variable {crates : Crates} {s₀ s : TransactionEngine} {es : List Event}

/-- A call that executes what the sender can pay for leaves the accounts of a confirmed
execution. -/
theorem accounts_step_of_canPay {e : Event} {tx : Transaction} (ht : s.taken e = some tx)
    (hp : CanPay s.accounts tx) :
    (s.step crates e).accounts = confirmedAccounts s.accounts tx e.now := by
  unfold taken at ht
  cases hc : e.call with
  | executeTransaction txHash =>
    simp only [hc] at ht
    simp only [step, hc, executeTransaction_of_canPay crates e.now ht hp]
    rfl
  | submitTransaction => simp [hc] at ht
  | addUtxo => simp [hc] at ht
  | spendUtxo => simp [hc] at ht
  | getBalance => simp [hc] at ht
  | getNonce => simp [hc] at ht

/-- A call that executes nothing that the sender can pay for changes no nonce. -/
theorem nonces_step_of_not_canPay (crates : Crates) {e : Event}
    (h : ∀ tx ∈ s.taken e, ¬CanPay s.accounts tx) :
    (∀ a, nonceOf (s.step crates e).accounts a = nonceOf s.accounts a) ∧
      nonceSum (s.step crates e).accounts = nonceSum s.accounts := by
  obtain he | ⟨address, he⟩ | ⟨tx, ht, hp, -⟩ := accounts_step crates s e
  · rw [he]
    exact ⟨fun _ ↦ rfl, rfl⟩
  · rw [he]
    exact ⟨nonceOf_getOrCreateAccount _ _ _, nonceSum_getOrCreateAccount _ _ _⟩
  · exact absurd hp (h tx ht)

/-- The number of confirmed executions with the address as sender. -/
def confirmedBy (s : TransactionEngine) (address : String) : Nat :=
  (confirmedTransactions s).countP (·.sender == address)

/-- What holds after some calls: every nonce counts the confirmed executions of its address,
and their sum counts all, of which there are at most as many as calls. -/
structure NoncesCount (es : List Event) (s : TransactionEngine) : Prop where
  keyed : Keyed s.accounts
  each : ∀ a, nonceOf s.accounts a = confirmedBy s a
  all : nonceSum s.accounts = (confirmedTransactions s).length
  bounded : (confirmedTransactions s).length ≤ es.length

/-- One call keeps the count, as long as there are fewer than `2 ^ 64` calls. -/
theorem noncesCount_step (h : NoncesCount es s) (e : Event) (hlt : es.length + 1 < 2 ^ 64) :
    NoncesCount (es ++ [e]) (s.step crates e) := by
  have hk := keyed_step crates h.keyed e
  have hb := h.bounded
  obtain ⟨hn, hc⟩ | ⟨tx, ht, hp, hc⟩ := confirmedTransactions_step crates s e
  · obtain ⟨heach, hsum⟩ := nonces_step_of_not_canPay crates hn
    refine ⟨hk, fun a ↦ ?_, ?_, ?_⟩
    · rw [heach, h.each, confirmedBy, confirmedBy, hc]
    · rw [hsum, h.all, hc]
    · rw [hc, List.length_append, List.length_singleton]
      omega
  · have hle : nonceOf s.accounts tx.sender ≤ (confirmedTransactions s).length := by
      rw [h.each]
      exact List.countP_le_length
    have hroom : nonceOf s.accounts tx.sender + 1 < 2 ^ 64 := by omega
    obtain ⟨heach, hsum⟩ := nonces_confirmedAccounts e.now h.keyed hroom
    have ha : (s.step crates e).accounts = confirmedAccounts s.accounts tx e.now :=
      accounts_step_of_canPay ht hp
    refine ⟨hk, fun a ↦ ?_, ?_, ?_⟩
    · rw [ha, heach, h.each, confirmedBy, confirmedBy, hc, List.countP_append,
        List.countP_singleton]
      simp only [beq_iff_eq]
    · rw [ha, hsum, h.all, hc, List.length_append, List.length_singleton]
    · rw [hc, List.length_append, List.length_append, List.length_singleton, List.length_singleton]
      omega

/-- The count holds along every run of fewer than `2 ^ 64` calls. -/
theorem noncesCount_of_run (hk : Keyed s₀.accounts) (hz : ∀ a, nonceOf s₀.accounts a = 0)
    (ht : s₀.transactions = []) (hr : EngineRun crates s₀ es s) (hlen : es.length < 2 ^ 64) :
    NoncesCount es s := by
  induction hr with
  | nil =>
    have hc : confirmedTransactions s₀ = [] := by rw [confirmedTransactions, ht, List.filter_nil]
    refine ⟨hk, fun a ↦ ?_, ?_, ?_⟩
    · rw [hz, confirmedBy, hc, List.countP_nil]
    · rw [hc]
      exact Table.total_eq_zero hz
    · rw [hc]
      exact Nat.le_refl _
  | snoc hr hs ih =>
    subst hs
    rw [List.length_append, List.length_singleton] at hlen
    exact noncesCount_step (ih (by omega)) _ hlen

/-- The toNat of the wrapping sum of the nonces, while it is in range. -/
theorem toNat_totalTransactions (h : nonceSum s.accounts < 2 ^ 64) :
    s.getStats.totalTransactions.toNat = nonceSum s.accounts := by
  rw [getStats, Table.toNat_total]
  exact Nat.mod_eq_of_lt h

/-- Every result in the history is that of a confirmed or of a failed execution. -/
theorem length_confirmed_add_failed {txs : List Transaction}
    {results : List TransactionExecutionResult} (h : List.Forall₂ InStep txs results) :
    (txs.filter (·.status == .confirmed)).length + results.countP (·.status == .failed) =
      results.length := by
  induction h with
  | nil => rfl
  | cons hst _ ih =>
    obtain ⟨-, hs, hc | hf⟩ := hst
    · rw [List.filter_cons_of_pos (by simp [hc]), List.countP_cons_of_neg (by simp [← hs, hc]),
        List.length_cons, List.length_cons]
      omega
    · rw [List.filter_cons_of_neg (by simp [hf]), List.countP_cons_of_pos (by simp [← hs, hf]),
        List.length_cons]
      omega

/-- From empty histories and zero nonces, in every run of fewer than `2 ^ 64` calls each
nonce is the number of confirmed executions of its address, and the statistics add up. -/
theorem nonces_count_confirmations (hk : Keyed s₀.accounts)
    (hz : ∀ a, nonceOf s₀.accounts a = 0) (ht : s₀.transactions = []) (he : s₀.executed = [])
    (hr : EngineRun crates s₀ es s) (hlen : es.length < 2 ^ 64) :
    (∀ a, nonceOf s.accounts a = confirmedBy s a) ∧
      s.getStats.totalTransactions.toNat + s.getStats.failedTransactions =
        s.getStats.executedTransactions := by
  have h := noncesCount_of_run hk hz ht hr hlen
  refine ⟨h.each, ?_⟩
  have hb := h.bounded
  rw [toNat_totalTransactions (by rw [h.all]; omega), h.all]
  exact length_confirmed_add_failed (inStep_of_run hr ht he)

end Runs

/-- A submitted payment of 20 by `alice`, out of 100, that is executed. -/
theorem nonces_count_confirmations_one :
    (∀ a, nonceOf ((submitted [⟨"bob", 20⟩]).step .linked ⟨.executeTransaction "t", 0⟩).accounts a =
      confirmedBy ((submitted [⟨"bob", 20⟩]).step .linked ⟨.executeTransaction "t", 0⟩) a) ∧
    ((submitted [⟨"bob", 20⟩]).step .linked
        ⟨.executeTransaction "t", 0⟩).getStats.totalTransactions.toNat +
      ((submitted [⟨"bob", 20⟩]).step .linked
        ⟨.executeTransaction "t", 0⟩).getStats.failedTransactions =
      ((submitted [⟨"bob", 20⟩]).step .linked
        ⟨.executeTransaction "t", 0⟩).getStats.executedTransactions := by
  refine nonces_count_confirmations (keyed_engineWith "alice" 100) ?_ rfl rfl
    (.snoc (submitted_run rfl (by decide) (by decide) (by decide)) rfl) (by decide)
  intro a
  rw [engineWith, startingWith, nonceOf_storeAccount]
  split
  · rfl
  · rfl

end SilverPow.Ledger
