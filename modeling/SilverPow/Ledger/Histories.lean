import Mathlib.Data.Multiset.AddSub
import SilverPow.Ledger.DoubleSpend

/-!
# The mempool and the two histories

An execution takes a transaction out of the mempool and appends to `transactions` and to
`executed`, on either of its two result paths. So no submitted transaction is lost, and
the histories stay in step.
-/

namespace SilverPow.Ledger

open SilverPow.Base TransactionEngine

/-- The nonce recorded for an address, zero without an account. -/
def nonceOf (accounts : Accounts) (address : String) : Nat :=
  Table.valueAt (fun account ↦ account.nonce.toNat) accounts address

/-- Creating a missing account changes no nonce. -/
theorem nonceOf_getOrCreateAccount (accounts : Accounts) (address : String) (now : U64)
    (a : String) : nonceOf (getOrCreateAccount accounts address now).2 a = nonceOf accounts a :=
  Table.valueAt_entryOrInsert _ accounts address rfl a

/-- A transaction without regard to its status. -/
def Transaction.unstamped (tx : Transaction) : Transaction := { tx with status := .pending }

/-- The transaction that a call submits with success. -/
def TransactionEngine.accepted (crates : Crates) (s : TransactionEngine) (e : Event) :
    Option Transaction :=
  match e.call with
  | .submitTransaction tx =>
    match (s.submitTransaction crates tx e.now).1 with
    | .ok _ => some tx
    | .error _ => none
  | _ => none

/-- The transactions that some calls submit with success, in order. -/
def submissions (crates : Crates) : TransactionEngine → List Event → List Transaction :=
  Run.collect (·.step crates) (·.accepted crates)

/-- An executed transaction and a result that belong together. -/
def InStep (tx : Transaction) (result : TransactionExecutionResult) : Prop :=
  tx.hash = result.txHash ∧ tx.status = result.status ∧
    (tx.status = .confirmed ∨ tx.status = .failed)

/-- What holds after the calls `es` from `s₀` have led to `s`. -/
structure NothingLost (crates : Crates) (s₀ : TransactionEngine) (es : List Event)
    (s : TransactionEngine) : Prop where
  /-- What was submitted with success is pending or executed. -/
  conserved : (((submissions crates s₀ es).map (·.unstamped) : List _) : Multiset Transaction) =
    ↑(s.mempool.map (·.unstamped)) + ↑(s.transactions.map (·.unstamped))
  /-- The two histories have the same entries in the same order. -/
  inStep : List.Forall₂ InStep s.transactions s.executed
  /-- Executing a transaction that is not pending changes nothing. -/
  unknown : ∀ txHash now, (∀ tx ∈ s.mempool, tx.hash ≠ txHash) →
    (s.executeTransaction crates txHash now).2 = s
  /-- A failed execution changes no balance and no nonce. -/
  failed : ∀ txHash now result, (s.executeTransaction crates txHash now).1 = .ok result →
    result.status = .failed → ∀ a,
      balanceOf (s.executeTransaction crates txHash now).2.accounts a = balanceOf s.accounts a ∧
      nonceOf (s.executeTransaction crates txHash now).2.accounts a = nonceOf s.accounts a

section Calls

variable (crates : Crates)

/-- One more call adds the transaction that it submits. -/
theorem submissions_concat {s₀ s : TransactionEngine} {es : List Event}
    (hr : EngineRun crates s₀ es s) (e : Event) :
    submissions crates s₀ (es ++ [e]) =
      submissions crates s₀ es ++ (s.accepted crates e).toList :=
  Run.collect_concat (fun _ _ _ h ↦ h) _ hr e

/-- A call leaves the mempool and the histories alone, appends an accepted transaction to
the mempool, or moves a transaction from there to the end of the histories. -/
theorem histories_step (s : TransactionEngine) (e : Event) :
    (s.accepted crates e = none ∧ (s.step crates e).mempool = s.mempool ∧
      (s.step crates e).transactions = s.transactions ∧
      (s.step crates e).executed = s.executed) ∨
    (∃ tx, s.accepted crates e = some tx ∧ (s.step crates e).mempool = s.mempool ++ [tx] ∧
      (s.step crates e).transactions = s.transactions ∧
      (s.step crates e).executed = s.executed) ∨
    (∃ txHash tx status result, s.accepted crates e = none ∧ s.findPending txHash = some tx ∧
      InStep { tx with status } result ∧
      (s.step crates e).mempool = s.mempool.eraseP (·.hash == txHash) ∧
      (s.step crates e).transactions = s.transactions ++ [{ tx with status }] ∧
      (s.step crates e).executed = s.executed ++ [result]) := by
  unfold step accepted
  cases e.call with
  | submitTransaction tx =>
    simp only [submitTransaction]
    cases tx.validate crates with
    | error e => exact .inl ⟨rfl, rfl, rfl, rfl⟩
    | ok _ =>
      dsimp only
      by_cases hb : (getOrCreateAccount s.accounts tx.sender e.now).1.balance < tx.totalNeeded
      · rw [if_pos hb]
        exact .inl ⟨rfl, rfl, rfl, rfl⟩
      · rw [if_neg hb]
        exact .inr (.inl ⟨tx, rfl, rfl, rfl, rfl⟩)
  | executeTransaction txHash =>
    dsimp only
    obtain ⟨-, e, h⟩ | ⟨tx, e, hf, -, h⟩ | ⟨tx, hf, -, h⟩ :=
      executeTransaction_cases crates s txHash e.now
    · exact .inl ⟨rfl, by rw [h], by rw [h], by rw [h]⟩
    · refine .inr (.inr ⟨txHash, tx, .failed, _, rfl, hf, ?_, by rw [h]; rfl, by rw [h]; rfl,
        by rw [h]; rfl⟩)
      exact ⟨rfl, rfl, .inr rfl⟩
    · refine .inr (.inr ⟨txHash, tx, .confirmed, _, rfl, hf, ?_, by rw [h]; rfl, by rw [h]; rfl,
        by rw [h]; rfl⟩)
      exact ⟨rfl, rfl, .inl rfl⟩
  | addUtxo utxo => exact .inl ⟨rfl, rfl, rfl, rfl⟩
  | spendUtxo txHash i => exact .inl ⟨rfl, rfl, rfl, rfl⟩
  | getBalance address => exact .inl ⟨rfl, rfl, rfl, rfl⟩
  | getNonce address => exact .inl ⟨rfl, rfl, rfl, rfl⟩

end Calls

private theorem cons_eraseP_perm {α : Type} {p : α → Bool} {a : α} {l : List α}
    (h : l.find? p = some a) : (a :: l.eraseP p).Perm l := by
  induction l with
  | nil => cases h
  | cons b l ih =>
    by_cases hb : p b = true
    · rw [List.find?_cons_of_pos hb] at h
      cases h
      rw [List.eraseP_cons_of_pos hb]
    · rw [List.find?_cons_of_neg hb] at h
      rw [List.eraseP_cons_of_neg hb]
      exact (List.Perm.swap b a _).trans ((ih h).cons b)

/-- What was submitted stays pending until it is executed. -/
theorem conserved_of_run {crates : Crates} {s₀ s : TransactionEngine} {es : List Event}
    (hr : EngineRun crates s₀ es s) (hm : s₀.mempool = []) (ht : s₀.transactions = []) :
    (((submissions crates s₀ es).map (·.unstamped) : List _) : Multiset Transaction) =
      ↑(s.mempool.map (·.unstamped)) + ↑(s.transactions.map (·.unstamped)) := by
  induction hr with
  | nil => rw [hm, ht]; rfl
  | @snoc es s s' e hr hs ih =>
    subst hs
    rw [submissions_concat crates hr, List.map_append, ← Multiset.coe_add, ih]
    obtain ⟨ha, hmem, htr, -⟩ | ⟨tx, ha, hmem, htr, -⟩ | ⟨txHash, tx, status, result, ha, hf, -,
      hmem, htr, -⟩ := histories_step crates s e
    · rw [ha, hmem, htr]
      exact add_zero _
    · rw [ha, hmem, htr, List.map_append, ← Multiset.coe_add]
      exact add_right_comm _ _ _
    · have hp := (cons_eraseP_perm hf).map (·.unstamped)
      rw [ha, hmem, htr, ← Multiset.coe_eq_coe.mpr hp, List.map_append, ← Multiset.coe_add,
        List.map_cons, ← Multiset.cons_coe, ← Multiset.singleton_add]
      change ({tx.unstamped} + _) + _ + 0 = _ + (_ + ({tx.unstamped} : Multiset Transaction))
      rw [add_zero, add_assoc, add_comm, add_assoc]

/-- Executed transactions and their results are recorded together. -/
theorem inStep_of_run {crates : Crates} {s₀ s : TransactionEngine} {es : List Event}
    (hr : EngineRun crates s₀ es s) (ht : s₀.transactions = []) (he : s₀.executed = []) :
    List.Forall₂ InStep s.transactions s.executed := by
  refine hr.invariant (fun s ↦ List.Forall₂ InStep s.transactions s.executed) ?_ ?_
  · rw [ht, he]
    exact .nil
  · rintro s e s' hi rfl
    obtain ⟨-, -, htr, hx⟩ | ⟨-, -, -, htr, hx⟩ | ⟨_, _, _, _, -, -, hst, -, htr, hx⟩ :=
      histories_step crates s e
    · rwa [htr, hx]
    · rwa [htr, hx]
    · rw [htr, hx]
      exact List.rel_append hi (.cons hst .nil)

/-- A hash that is not pending is not found, and nothing changes. -/
theorem executeTransaction_of_notMem {crates : Crates} {s : TransactionEngine} {txHash : String}
    (now : U64) (h : ∀ tx ∈ s.mempool, tx.hash ≠ txHash) :
    (s.executeTransaction crates txHash now).2 = s := by
  obtain ⟨-, e, hx⟩ | ⟨tx, e, hf, -, -⟩ | ⟨tx, hf, -, -⟩ :=
    executeTransaction_cases crates s txHash now
  · rw [hx]
  · exact absurd (by simpa using List.find?_some hf) (h tx (List.mem_of_find?_eq_some hf))
  · exact absurd (by simpa using List.find?_some hf) (h tx (List.mem_of_find?_eq_some hf))

/-- A failed execution creates at most an empty account for the sender. -/
theorem accounts_of_failed {crates : Crates} {s : TransactionEngine} {txHash : String}
    {now : U64} {result : TransactionExecutionResult}
    (hx : (s.executeTransaction crates txHash now).1 = .ok result)
    (hs : result.status = .failed) :
    ∃ address, (s.executeTransaction crates txHash now).2.accounts =
      (getOrCreateAccount s.accounts address now).2 := by
  obtain ⟨-, e, h⟩ | ⟨tx, e, -, -, h⟩ | ⟨tx, -, -, h⟩ :=
    executeTransaction_cases crates s txHash now
  · rw [h] at hx
    cases hx
  · exact ⟨tx.sender, by rw [h]; rfl⟩
  · rw [h] at hx
    cases hx
    cases hs

/-- From an empty mempool and empty histories, with any accounts, every run loses no
transaction and keeps the histories in step. -/
theorem nothingLost_of_run {crates : Crates} {s₀ s : TransactionEngine} {es : List Event}
    (hm : s₀.mempool = []) (ht : s₀.transactions = []) (he : s₀.executed = [])
    (hr : EngineRun crates s₀ es s) : NothingLost crates s₀ es s where
  conserved := conserved_of_run hr hm ht
  inStep := inStep_of_run hr ht he
  unknown _ now h := executeTransaction_of_notMem now h
  failed txHash now result hx hs a := by
    obtain ⟨address, ha⟩ := accounts_of_failed hx hs
    rw [ha]
    exact ⟨balanceOf_getOrCreateAccount _ _ _ a, nonceOf_getOrCreateAccount _ _ _ a⟩

/-- A submitted payment of 20 by `alice`, out of 100, that is executed and then asked for
again. -/
theorem nothingLost_of_submitted :
    NothingLost .linked (engineWith "alice" 100)
      [⟨.submitTransaction (aliceTransaction [⟨"bob", 20⟩]), 0⟩, ⟨.executeTransaction "t", 5⟩,
        ⟨.executeTransaction "t", 6⟩]
      (((submitted [⟨"bob", 20⟩]).step .linked ⟨.executeTransaction "t", 5⟩).step .linked
        ⟨.executeTransaction "t", 6⟩) :=
  nothingLost_of_run rfl rfl rfl
    (.snoc (.snoc (submitted_run rfl (by decide) (by decide) (by decide)) rfl) rfl)

end SilverPow.Ledger
