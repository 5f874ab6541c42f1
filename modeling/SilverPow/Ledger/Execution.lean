import SilverPow.Ledger.Balances

/-!
# What a call does to the accounts

An execution is confirmed exactly when the sender's balance covers what the engine
charges. `executeTransaction_cases` lists the three outcomes of an execution with the
whole state after each, and `accounts_step` the three effects that any call can have on
the account table; invariants of the accounts are derived from these two.
-/

namespace SilverPow.Ledger

open SilverPow.Base

/-- The sender's balance covers the charge that the engine computes. -/
def CanPay (accounts : Accounts) (tx : Transaction) : Prop :=
  tx.totalNeeded.toNat ≤ balanceOf accounts tx.sender

instance (accounts : Accounts) (tx : Transaction) : Decidable (CanPay accounts tx) :=
  Nat.decLe _ _

/-- The account table after a confirmed execution. -/
def confirmedAccounts (accounts : Accounts) (tx : Transaction) (now : U64) : Accounts :=
  let (senderAccount, accounts) := getOrCreateAccount accounts tx.sender now
  storeAccount (tx.outputs.foldl (creditOutput now) accounts)
    { senderAccount with
      balance := Word.saturatingSub senderAccount.balance tx.totalNeeded
      nonce := Word.saturatingAdd senderAccount.nonce 1 }

section Internal

variable (crates : Crates) {accounts : Accounts} {tx : Transaction} (now : U64)

/-- A sender that cannot pay gets an error, and at most an empty account. -/
theorem executeTxInternal_of_not_canPay (h : ¬CanPay accounts tx) :
    ∃ e, executeTxInternal crates accounts tx now =
      (.error e, (getOrCreateAccount accounts tx.sender now).2) := by
  have hb : (getOrCreateAccount accounts tx.sender now).1.balance < tx.totalNeeded := by
    rw [BitVec.lt_def, balance_getOrCreateAccount]
    exact Nat.lt_of_not_le h
  exact ⟨_, by simp only [executeTxInternal, AccountState.subtractBalance, if_pos hb]; rfl⟩

/-- A sender that can pay is debited and the outputs are credited. -/
theorem executeTxInternal_of_canPay (h : CanPay accounts tx) :
    executeTxInternal crates accounts tx now =
      (.ok (gasUsed crates tx), confirmedAccounts accounts tx now) := by
  have hb : ¬(getOrCreateAccount accounts tx.sender now).1.balance < tx.totalNeeded := by
    rw [BitVec.lt_def, balance_getOrCreateAccount]
    exact Nat.not_lt_of_le h
  simp only [executeTxInternal, AccountState.subtractBalance, if_neg hb]
  rfl

end Internal

section Confirmed

variable {accounts : Accounts} (h : Keyed accounts) {tx : Transaction} (now : U64)
include h

/-- A confirmed execution keeps the table keyed. -/
theorem keyed_confirmedAccounts : Keyed (confirmedAccounts accounts tx now) :=
  keyed_storeAccount (keyed_foldl_creditOutput now tx.outputs
    (keyed_getOrCreateAccount h tx.sender now)) _

/-- A confirmed execution charges the sender's earlier balance, so that outputs paid to
the sender are lost, and credits everyone else, capped. -/
theorem balanceOf_confirmedAccounts (a : String) :
    balanceOf (confirmedAccounts accounts tx now) a =
      if a = tx.sender then balanceOf accounts a - tx.totalNeeded.toNat
      else min (balanceOf accounts a + paidTo tx.outputs a) maxAmount := by
  simp only [confirmedAccounts, balanceOf_storeAccount, address_getOrCreateAccount h,
    Word.toNat_saturatingSub, balance_getOrCreateAccount]
  split
  · next ha => rw [ha]
  · rw [balanceOf_foldl_creditOutput now tx.outputs (keyed_getOrCreateAccount h tx.sender now),
      balanceOf_getOrCreateAccount]

/-- A confirmed execution adds at most the outputs to the supply and removes the charge. -/
theorem supply_confirmedAccounts_le (hp : CanPay accounts tx) :
    supply (confirmedAccounts accounts tx now) + tx.totalNeeded.toNat ≤
      supply accounts + amountSum tx.outputs := by
  have hk := keyed_getOrCreateAccount h tx.sender now
  have hs := supply_storeAccount
    (tx.outputs.foldl (creditOutput now) (getOrCreateAccount accounts tx.sender now).2)
    { (getOrCreateAccount accounts tx.sender now).1 with
      balance := Word.saturatingSub (getOrCreateAccount accounts tx.sender now).1.balance
        tx.totalNeeded
      nonce := Word.saturatingAdd (getOrCreateAccount accounts tx.sender now).1.nonce 1 }
  have hl := supply_foldl_creditOutput_le now tx.outputs hk
  have hb := balanceOf_le_maxAmount accounts tx.sender
  rw [supply_getOrCreateAccount] at hl
  rw [address_getOrCreateAccount h, balanceOf_foldl_creditOutput now tx.outputs hk,
    balanceOf_getOrCreateAccount, Word.toNat_saturatingSub, balance_getOrCreateAccount] at hs
  unfold CanPay at hp
  change supply (confirmedAccounts accounts tx now) + _ = _ at hs
  omega

end Confirmed

namespace TransactionEngine

variable (crates : Crates)

/-- A pending transaction whose sender cannot pay is recorded as failed. -/
theorem executeTransaction_of_not_canPay {s : TransactionEngine} {txHash : String}
    {tx : Transaction} (now : U64) (hf : s.findPending txHash = some tx)
    (hp : ¬CanPay s.accounts tx) :
    ∃ e, s.executeTransaction crates txHash now =
      (.ok ⟨tx.hash, .failed, 0, some e, now⟩,
        { s with
          accounts := (getOrCreateAccount s.accounts tx.sender now).2
          mempool := s.mempool.eraseP (·.hash == txHash) }.record
            { tx with status := .failed } ⟨tx.hash, .failed, 0, some e, now⟩) := by
  obtain ⟨e, he⟩ := executeTxInternal_of_not_canPay crates now hp
  exact ⟨e, by simp only [executeTransaction, hf, he]⟩

/-- A pending transaction whose sender can pay is executed and recorded as confirmed. -/
theorem executeTransaction_of_canPay {s : TransactionEngine} {txHash : String}
    {tx : Transaction} (now : U64) (hf : s.findPending txHash = some tx)
    (hp : CanPay s.accounts tx) :
    s.executeTransaction crates txHash now =
      (.ok ⟨tx.hash, .confirmed, gasUsed crates tx, none, now⟩,
        { s with
          accounts := confirmedAccounts s.accounts tx now
          mempool := s.mempool.eraseP (·.hash == txHash) }.record
            { tx with status := .confirmed }
            ⟨tx.hash, .confirmed, gasUsed crates tx, none, now⟩) := by
  simp only [executeTransaction, hf, executeTxInternal_of_canPay crates now hp]

/-- The outcomes of `execute_transaction`: nothing to execute, a sender that cannot pay,
or a confirmed execution. -/
theorem executeTransaction_cases (s : TransactionEngine) (txHash : String) (now : U64) :
    (s.findPending txHash = none ∧ ∃ e, s.executeTransaction crates txHash now = (.error e, s)) ∨
    (∃ tx e, s.findPending txHash = some tx ∧ ¬CanPay s.accounts tx ∧
      s.executeTransaction crates txHash now =
        (.ok ⟨tx.hash, .failed, 0, some e, now⟩,
          { s with
            accounts := (getOrCreateAccount s.accounts tx.sender now).2
            mempool := s.mempool.eraseP (·.hash == txHash) }.record
              { tx with status := .failed } ⟨tx.hash, .failed, 0, some e, now⟩)) ∨
    (∃ tx, s.findPending txHash = some tx ∧ CanPay s.accounts tx ∧
      s.executeTransaction crates txHash now =
        (.ok ⟨tx.hash, .confirmed, gasUsed crates tx, none, now⟩,
          { s with
            accounts := confirmedAccounts s.accounts tx now
            mempool := s.mempool.eraseP (·.hash == txHash) }.record
              { tx with status := .confirmed }
              ⟨tx.hash, .confirmed, gasUsed crates tx, none, now⟩)) := by
  cases hf : s.findPending txHash with
  | none => exact .inl ⟨rfl, _, by simp only [executeTransaction, hf]; rfl⟩
  | some tx =>
    by_cases hp : CanPay s.accounts tx
    · exact .inr (.inr ⟨tx, rfl, hp, executeTransaction_of_canPay crates now hf hp⟩)
    · obtain ⟨e, he⟩ := executeTransaction_of_not_canPay crates now hf hp
      exact .inr (.inl ⟨tx, e, rfl, hp, he⟩)

/-- The effects of a call on the accounts: none, one account created, or the confirmed
execution of a pending transaction. -/
theorem accounts_step (s : TransactionEngine) (e : Event) :
    (s.step crates e).accounts = s.accounts ∨
    (∃ address, (s.step crates e).accounts = (getOrCreateAccount s.accounts address e.now).2) ∨
    (∃ tx, s.taken e = some tx ∧ CanPay s.accounts tx ∧
      (s.step crates e).accounts = confirmedAccounts s.accounts tx e.now) := by
  unfold step taken
  cases e.call with
  | submitTransaction tx =>
    simp only [submitTransaction]
    cases tx.validate crates with
    | error e => exact .inl rfl
    | ok _ =>
      right; left
      refine ⟨tx.sender, ?_⟩
      dsimp only
      split <;> rfl
  | executeTransaction txHash =>
    dsimp only
    obtain ⟨-, e, h⟩ | ⟨tx, e, -, -, h⟩ | ⟨tx, hf, hp, h⟩ :=
      executeTransaction_cases crates s txHash e.now
    · exact .inl (by rw [h])
    · exact .inr (.inl ⟨tx.sender, by rw [h]; rfl⟩)
    · exact .inr (.inr ⟨tx, hf, hp, by rw [h]; rfl⟩)
  | addUtxo utxo => exact .inl rfl
  | spendUtxo txHash i => exact .inl rfl
  | getBalance address => exact .inr (.inl ⟨address, rfl⟩)
  | getNonce address => exact .inr (.inl ⟨address, rfl⟩)

/-- Every call keeps the account table keyed. -/
theorem keyed_step {s : TransactionEngine} (h : Keyed s.accounts) (e : Event) :
    Keyed (s.step crates e).accounts := by
  obtain he | ⟨address, he⟩ | ⟨tx, -, -, he⟩ := accounts_step crates s e
  · rwa [he]
  · rw [he]; exact keyed_getOrCreateAccount h address e.now
  · rw [he]; exact keyed_confirmedAccounts h e.now

/-- The account table stays keyed along every run. -/
theorem keyed_of_run {s₀ s : TransactionEngine} {es : List Event} (h₀ : Keyed s₀.accounts)
    (hr : EngineRun crates s₀ es s) : Keyed s.accounts :=
  hr.invariant (fun s ↦ Keyed s.accounts) h₀ fun _ e _ h hs ↦ hs ▸ keyed_step crates h e

end TransactionEngine
end SilverPow.Ledger
