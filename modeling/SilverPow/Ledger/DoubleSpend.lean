import SilverPow.Ledger.Supply

/-!
# Outpoints spent by confirmed executions

The executor never consults the UTXO set and the mempool accepts a transaction any number
of times, so nothing keeps two confirmed executions from spending one outpoint. What
prevents it is exactly a condition on the runs: every execution that the sender can pay
for takes a transaction whose outpoints no confirmed transaction spends yet.
-/

namespace SilverPow.Ledger

open SilverPow.Base TransactionEngine

/-- The transactions whose execution was confirmed, in order. -/
def confirmedTransactions (s : TransactionEngine) : List Transaction :=
  s.transactions.filter (·.status == .confirmed)

/-- Two different transactions without a common outpoint. -/
def SpendApart (t u : Transaction) : Prop := t ≠ u ∧ ∀ o ∈ outpoints t, o ∉ outpoints u

/-- No outpoint is spent by two confirmed executions, and none confirms a transaction
again. -/
def NoDoubleSpend (s : TransactionEngine) : Prop :=
  (confirmedTransactions s).Pairwise SpendApart

/-- The call does not execute a transaction that spends an outpoint again: what it takes
out of the mempool has no outpoint in common with a confirmed transaction, or its sender
cannot pay. -/
def SpendsFresh (s : TransactionEngine) (e : Event) : Prop :=
  ∀ tx ∈ s.taken e, CanPay s.accounts tx →
    ∀ t ∈ confirmedTransactions s, ∀ o ∈ outpoints t, o ∉ outpoints tx

instance (t u : Transaction) : Decidable (SpendApart t u) :=
  inferInstanceAs (Decidable (_ ∧ _))

instance (s : TransactionEngine) : Decidable (NoDoubleSpend s) :=
  inferInstanceAs (Decidable (List.Pairwise _ _))

instance (s : TransactionEngine) (e : Event) : Decidable (SpendsFresh s e) :=
  inferInstanceAs (Decidable (∀ tx ∈ s.taken e, CanPay s.accounts tx → ∀ t ∈ _, ∀ o ∈ _, _))

/-- Every pending transaction has an input. -/
def PendingHaveInputs (s : TransactionEngine) : Prop := ∀ tx ∈ s.mempool, tx.inputs ≠ []

/-- What a call takes out of the mempool was pending. -/
theorem mem_mempool_of_taken {s : TransactionEngine} {e : Event} {tx : Transaction}
    (h : s.taken e = some tx) : tx ∈ s.mempool := by
  unfold taken at h
  split at h
  · exact List.mem_of_find?_eq_some h
  · cases h

section Steps

variable (crates : Crates)

/-- A call adds to the confirmed transactions what it takes out of the mempool, if the
sender can pay, and nothing otherwise. -/
theorem confirmedTransactions_step (s : TransactionEngine) (e : Event) :
    ((∀ tx ∈ s.taken e, ¬CanPay s.accounts tx) ∧
      confirmedTransactions (s.step crates e) = confirmedTransactions s) ∨
    (∃ tx, s.taken e = some tx ∧ CanPay s.accounts tx ∧
      confirmedTransactions (s.step crates e) =
        confirmedTransactions s ++ [{ tx with status := .confirmed }]) := by
  unfold step taken
  cases e.call with
  | submitTransaction tx =>
    refine .inl ⟨by simp, ?_⟩
    simp only [submitTransaction]
    split
    · rfl
    · split <;> rfl
  | executeTransaction txHash =>
    dsimp only
    obtain ⟨hf, e, h⟩ | ⟨tx, e, hf, hp, h⟩ | ⟨tx, hf, hp, h⟩ :=
      executeTransaction_cases crates s txHash e.now
    · exact .inl ⟨by simp [hf], by rw [h]⟩
    · refine .inl ⟨by simpa [hf] using hp, ?_⟩
      simp [h, record, confirmedTransactions]
    · refine .inr ⟨tx, hf, hp, ?_⟩
      simp [h, record, confirmedTransactions]
  | addUtxo utxo => exact .inl ⟨by simp, rfl⟩
  | spendUtxo txHash i => exact .inl ⟨by simp, rfl⟩
  | getBalance address => exact .inl ⟨by simp, rfl⟩
  | getNonce address => exact .inl ⟨by simp, rfl⟩

/-- A pending transaction after a call was pending before it, or was just validated. -/
theorem mem_mempool_step {s : TransactionEngine} {e : Event} {tx : Transaction}
    (h : tx ∈ (s.step crates e).mempool) : tx ∈ s.mempool ∨ tx.validate crates = .ok () := by
  unfold step at h
  cases hc : e.call with
  | submitTransaction tx' =>
    simp only [hc, submitTransaction] at h
    split at h
    · exact .inl h
    · next hv =>
      split at h
      · exact .inl h
      · obtain h | h := List.mem_append.mp h
        · exact .inl h
        · rw [List.mem_singleton.mp h]
          exact .inr hv
  | executeTransaction txHash =>
    simp only [hc] at h
    obtain ⟨-, e, he⟩ | ⟨tx', e, -, -, he⟩ | ⟨tx', -, -, he⟩ :=
      executeTransaction_cases crates s txHash e.now
    · rw [he] at h
      exact .inl h
    · rw [he] at h
      exact .inl (List.mem_of_mem_eraseP h)
    · rw [he] at h
      exact .inl (List.mem_of_mem_eraseP h)
  | addUtxo utxo => simp only [hc] at h; exact .inl h
  | spendUtxo txHash i => simp only [hc] at h; exact .inl h
  | getBalance address => simp only [hc] at h; exact .inl h
  | getNonce address => simp only [hc] at h; exact .inl h

/-- Every call keeps an input on every pending transaction. -/
theorem pendingHaveInputs_step {s : TransactionEngine} (h : PendingHaveInputs s) (e : Event) :
    PendingHaveInputs (s.step crates e) := by
  intro tx htx
  obtain hm | hv := mem_mempool_step crates htx
  · exact h tx hm
  · exact Transaction.inputs_ne_nil_of_validate hv

/-- One call keeps confirmed transactions apart exactly when it meets the condition. -/
theorem noDoubleSpend_step_iff {s : TransactionEngine} (h : PendingHaveInputs s) (e : Event) :
    NoDoubleSpend (s.step crates e) ↔ NoDoubleSpend s ∧ SpendsFresh s e := by
  unfold NoDoubleSpend
  obtain ⟨hn, hs⟩ | ⟨tx, ht, hp, hs⟩ := confirmedTransactions_step crates s e
  · rw [hs]
    have hf : SpendsFresh s e := fun tx htx hp ↦ absurd hp (hn tx htx)
    exact ⟨fun hd ↦ ⟨hd, hf⟩, And.left⟩
  · have hi : outpoints tx ≠ [] := by
      simpa [outpoints] using h tx (mem_mempool_of_taken ht)
    rw [hs, List.pairwise_append]
    simp only [List.pairwise_singleton, true_and, List.mem_singleton, forall_eq]
    apply and_congr_right
    intro _
    constructor
    · intro hd tx' htx' _ t hmem
      cases Option.some.inj (ht.symm.trans htx')
      exact (hd t hmem).2
    · intro hf t hmem
      have ho := hf tx ht hp t hmem
      refine ⟨?_, ho⟩
      -- A transaction confirmed again shares every outpoint, and it has one.
      rintro rfl
      obtain ⟨o, hmo⟩ := List.exists_mem_of_ne_nil _ hi
      exact ho o hmo hmo

end Steps

/-- From any starting accounts, the confirmed executions of a run spend no outpoint twice
exactly when every call of the run met the condition. -/
theorem noDoubleSpend_iff {crates : Crates} {accounts : Accounts} {s : TransactionEngine}
    {es : List Event} (hr : EngineRun crates (.startingWith accounts) es s) :
    NoDoubleSpend s ↔ Run (Guarded SpendsFresh fun s e s' ↦ s' = s.step crates e)
      (.startingWith accounts) es s := by
  have hi : PendingHaveInputs s ∧ (NoDoubleSpend s ↔ Run (Guarded SpendsFresh
      fun s e s' ↦ s' = s.step crates e) (.startingWith accounts) es s) := by
    induction hr with
    | nil =>
      exact ⟨fun _ htx ↦ absurd htx List.not_mem_nil, fun _ ↦ .nil, fun _ ↦ List.Pairwise.nil⟩
    | snoc hr hs ih =>
      obtain ⟨hp, hd⟩ := ih
      subst hs
      refine ⟨pendingHaveInputs_step crates hp _, ?_⟩
      rw [noDoubleSpend_step_iff crates hp, Run.guarded_snoc_iff (fun _ _ _ h ↦ h) hr rfl, hd]
  exact hi.2

/-- Adding a coin and spending it changes the UTXO set only. -/
theorem addUtxo_spendUtxo_run (crates : Crates) (s : TransactionEngine) (utxo : UTXOEntry) :
    ∃ utxoSet, EngineRun crates s [⟨.addUtxo utxo, 0⟩, ⟨.spendUtxo utxo.txHash 0, 0⟩]
      { s with utxoSet } :=
  ⟨_, Run.foldl (step crates) s _⟩

/-- One transaction is submitted twice and executed twice, after its outpoint was already
marked as spent. -/
def doubleSpendEvents : List Event :=
  [⟨.addUtxo aliceUtxo, 0⟩, ⟨.spendUtxo aliceUtxo.txHash 0, 0⟩,
    ⟨.submitTransaction (aliceTransaction [⟨"bob", 20⟩]), 0⟩,
    ⟨.submitTransaction (aliceTransaction [⟨"bob", 20⟩]), 0⟩,
    ⟨.executeTransaction "t", 0⟩, ⟨.executeTransaction "t", 0⟩]

/-- Both executions of the transaction are confirmed. -/
theorem double_spend :
    ∃ s, EngineRun .linked (engineWith "alice" 100) doubleSpendEvents s ∧
      (confirmedTransactions s).length = 2 ∧ ¬NoDoubleSpend s := by
  obtain ⟨utxoSet, hspent⟩ := addUtxo_spendUtxo_run .linked (engineWith "alice" 100) aliceUtxo
  have hsubmit {s : TransactionEngine} {es : List Event}
      (hr : EngineRun .linked (engineWith "alice" 100) es s)
      (hs : s.accounts = (engineWith "alice" 100).accounts) :
      EngineRun .linked (engineWith "alice" 100)
        (es ++ [⟨.submitTransaction (aliceTransaction [⟨"bob", 20⟩]), 0⟩])
        { s with mempool := s.mempool ++ [aliceTransaction [⟨"bob", 20⟩]] } :=
    submit_run hr hs rfl (by decide) (by decide) (by decide)
  have hsubmitted := hsubmit (hsubmit hspent rfl) rfl
  refine ⟨_, (hsubmitted.snoc rfl).snoc rfl, ?_⟩
  rw [NoDoubleSpend, show confirmedTransactions _ = List.replicate 2
    { aliceTransaction [⟨"bob", 20⟩] with status := .confirmed } from rfl]
  refine ⟨rfl, fun hd ↦ ?_⟩
  exact (List.rel_of_pairwise_cons hd (List.mem_singleton.mpr rfl)).1 rfl

/-- A run that meets the condition: the transaction is executed once. -/
theorem noDoubleSpend_iff_once :
    NoDoubleSpend (submitted [⟨"bob", 20⟩]) ↔
      Run (Guarded SpendsFresh fun s e s' ↦ s' = s.step .linked e) (engineWith "alice" 100)
        [⟨.submitTransaction (aliceTransaction [⟨"bob", 20⟩]), 0⟩] (submitted [⟨"bob", 20⟩]) :=
  noDoubleSpend_iff (submitted_run rfl (by decide) (by decide) (by decide))

end SilverPow.Ledger
