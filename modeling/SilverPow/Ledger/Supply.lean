import SilverPow.Ledger.Execution
import SilverPow.Ledger.Serialize

/-!
# Supply and the effect of one execution

`total_output` wraps while every other sum of the engine saturates. As long as the
outputs of what is executed truly sum to an amount, the supply never grows; the wrapped
sum is what lets it grow. The sender's stale copy is the other defect: outputs that pay
the sender back are overwritten, and an execution has its intended effect on every
balance exactly when there are none.
-/

namespace SilverPow.Ledger

open SilverPow.Base TransactionEngine

/-- The call does not execute outputs that overflow an amount: what it takes out of the
mempool has outputs that truly sum to an amount, or its sender cannot pay. -/
def OutputsFit (s : TransactionEngine) (e : Event) : Prop :=
  ∀ tx ∈ s.taken e, CanPay s.accounts tx → amountSum tx.outputs < 2 ^ 128

instance (s : TransactionEngine) (e : Event) : Decidable (OutputsFit s e) :=
  inferInstanceAs (Decidable (∀ tx ∈ s.taken e, CanPay s.accounts tx →
    amountSum tx.outputs < 2 ^ 128))

/-- `total_output` is the true sum when that is an amount. -/
theorem toNat_totalOutput {tx : Transaction} (h : amountSum tx.outputs < 2 ^ 128) :
    tx.totalOutput.toNat = amountSum tx.outputs := by
  rw [Transaction.totalOutput, Word.toNat_sum_of_lt] <;> rw [List.map_map]
  · rfl
  · exact h

/-- Outputs that sum to an amount are charged in full. -/
theorem amountSum_le_totalNeeded {tx : Transaction} (h : amountSum tx.outputs < 2 ^ 128) :
    amountSum tx.outputs ≤ tx.totalNeeded.toNat := by
  rw [Transaction.totalNeeded, Word.toNat_saturatingAdd, toNat_totalOutput h]
  omega

/-- One call whose executed outputs fit does not add to the supply. -/
theorem supply_step_le (crates : Crates) {s : TransactionEngine} (h : Keyed s.accounts)
    {e : Event} (hf : OutputsFit s e) : supply (s.step crates e).accounts ≤ supply s.accounts := by
  obtain he | ⟨address, he⟩ | ⟨tx, ht, hp, he⟩ := accounts_step crates s e
  · rw [he]
  · rw [he, supply_getOrCreateAccount]
  · have hs := supply_confirmedAccounts_le h e.now hp
    have hn := amountSum_le_totalNeeded (hf tx ht hp)
    rw [he]
    omega

/-- In every run in which all executed outputs fit, the supply never increases from one
state to the next, and so never exceeds what it was at the start. -/
theorem supply_never_increases (crates : Crates) {s₀ s s' : TransactionEngine}
    {es : List Event} {e : Event} (h₀ : Keyed s₀.accounts)
    (hr : Run (Guarded OutputsFit fun s e s' ↦ s' = s.step crates e) s₀ es s)
    (hs : Guarded OutputsFit (fun s e s' ↦ s' = s.step crates e) s e s') :
    supply s'.accounts ≤ supply s.accounts ∧ supply s.accounts ≤ supply s₀.accounts := by
  have hk : Keyed s.accounts := keyed_of_run crates h₀ hr.of_guarded
  have hle : Keyed s.accounts ∧ supply s.accounts ≤ supply s₀.accounts := by
    refine hr.invariant (fun s ↦ Keyed s.accounts ∧ supply s.accounts ≤ supply s₀.accounts)
      ⟨h₀, Nat.le_refl _⟩ ?_
    rintro s e s' ⟨hk, hi⟩ ⟨hf, rfl⟩
    exact ⟨keyed_step crates hk e, (supply_step_le crates hk hf).trans hi⟩
  obtain ⟨hf, rfl⟩ := hs
  exact ⟨supply_step_le crates hk hf, hle.2⟩

/-! ### Failing and passing inputs -/

/-- An engine whose only account is the given one. -/
def engineWith (address : String) (balance : U128) : TransactionEngine :=
  .startingWith (storeAccount ∅ ⟨address, balance, 0, 0⟩)

/-- Every account of such an engine is stored under its address. -/
theorem keyed_engineWith (address : String) (balance : U128) :
    Keyed (engineWith address balance).accounts :=
  keyed_storeAccount keyed_empty _

/-- A transaction of `alice` with one well-formed input: a 64-byte hash and a 64-byte
signature in hexadecimal. -/
def aliceTransaction (outputs : List TransactionOutput) : Transaction where
  hash := "t"
  sender := "alice"
  inputs :=
    [⟨String.ofList (List.replicate 128 'a'), 0, String.ofList (List.replicate 128 'c')⟩]
  outputs
  fee := 10
  timestamp := 0
  status := .pending

/-- The engine with a balance of 100 for `alice` and her transaction in the mempool. -/
def submitted (outputs : List TransactionOutput) : TransactionEngine :=
  { engineWith "alice" 100 with mempool := [aliceTransaction outputs] }

/-- The input of `alice`. -/
def aliceInput : TransactionInput :=
  ⟨String.ofList (List.replicate 128 'a'), 0, String.ofList (List.replicate 128 'c')⟩

/-- The hash and the signature of that input have 128 hexadecimal characters. -/
theorem aliceInput_prevTxHash : aliceInput.prevTxHash.utf8ByteSize = 128 ∧
    (Crates.linked.hexDecode aliceInput.prevTxHash).isSome :=
  ⟨by decide +kernel, Crates.isSome_linked_hexDecode (show Hex.digitValue 'a' = some 10 from rfl)⟩

theorem aliceInput_signature : aliceInput.signature.utf8ByteSize = 128 ∧
    (Crates.linked.hexDecode aliceInput.signature).isSome :=
  ⟨by decide +kernel, Crates.isSome_linked_hexDecode (show Hex.digitValue 'c' = some 12 from rfl)⟩

/-- Transactions with that input only, up to four times, count it every time. -/
theorem totalInput_of_aliceInput {tx : Transaction} (h : ∀ input ∈ tx.inputs, input = aliceInput)
    (hlen : tx.inputs.length ≤ 4) :
    tx.totalInput .linked = tx.inputs.zipIdx.foldl (fun total entry ↦
      Word.saturatingAdd total (Transaction.inputAmount entry.2)) 0 := by
  obtain ⟨hp, hpd⟩ := aliceInput_prevTxHash
  obtain ⟨hs, hsd⟩ := aliceInput_signature
  refine Transaction.totalInput_of_counted fun ⟨input, i⟩ he ↦ ?_
  have hi : i < 4 := by
    have := (List.mem_zipIdx he).2.1
    omega
  have hr : ∀ i : Fin 4, Transaction.inputAmount i ≠ 0 ∧ Transaction.inputAmount i ≤ maxSupply := by
    decide
  have hin : input = aliceInput := h input (List.fst_mem_of_mem_zipIdx he)
  subst hin
  exact Transaction.countedInput_eq_some hp hpd hs hsd (hr ⟨i, hi⟩).1 (hr ⟨i, hi⟩).2

private theorem totalInput_alice (outputs : List TransactionOutput) :
    (aliceTransaction outputs).totalInput .linked = 100_000_000 := by
  have hlen : (aliceTransaction outputs).inputs.length ≤ 4 := show 1 ≤ 4 by decide
  rw [totalInput_of_aliceInput (fun _ h ↦ List.mem_singleton.mp h) hlen]
  rfl

/-- The accounts of that engine are stored under their addresses. -/
theorem keyed_submitted (outputs : List TransactionOutput) : Keyed (submitted outputs).accounts :=
  keyed_engineWith "alice" 100

/-- Submitting the transaction of `alice` appends it to the mempool when it is worth at most
one SLVR and she can pay for it from her 100. -/
theorem submit_run {s₀ s : TransactionEngine} {es : List Event} (hr : EngineRun .linked s₀ es s)
    (hs : s.accounts = (engineWith "alice" 100).accounts) {outputs : List TransactionOutput}
    (hne : outputs.isEmpty = false) (hz : ∀ output ∈ outputs, output.amount ≠ 0)
    (hi : ¬(100_000_000 : U128) < (aliceTransaction outputs).totalOutput)
    (hp : ¬(100 : U128) < (aliceTransaction outputs).totalNeeded) :
    EngineRun .linked s₀ (es ++ [⟨.submitTransaction (aliceTransaction outputs), 0⟩])
      { s with mempool := s.mempool ++ [aliceTransaction outputs] } := by
  have hle : (aliceTransaction outputs).totalOutput ≤
      (aliceTransaction outputs).totalInput .linked := by
    rw [totalInput_alice]
    exact BitVec.not_lt.mp hi
  have hv : (aliceTransaction outputs).validate .linked = .ok () :=
    Transaction.validate_eq_ok (show "alice".isEmpty = false by decide) rfl hne hz hle
  have hb : ¬(getOrCreateAccount (engineWith "alice" 100).accounts
      (aliceTransaction outputs).sender 0).1.balance < (aliceTransaction outputs).totalNeeded := hp
  obtain ⟨accounts, transactions, mempool, executed, utxoSet⟩ := s
  subst hs
  refine hr.snoc ?_
  simp only [step, submitTransaction, hv, if_neg hb]
  rfl

theorem submitted_run {outputs : List TransactionOutput} (hne : outputs.isEmpty = false)
    (hz : ∀ output ∈ outputs, output.amount ≠ 0)
    (hi : ¬(100_000_000 : U128) < (aliceTransaction outputs).totalOutput)
    (hp : ¬(100 : U128) < (aliceTransaction outputs).totalNeeded) :
    EngineRun .linked (engineWith "alice" 100)
      [⟨.submitTransaction (aliceTransaction outputs), 0⟩] (submitted outputs) :=
  submit_run .nil rfl hne hz hi hp

/-- Two outputs of `2 ^ 127` each, whose wrapping sum is zero. -/
def wrappingOutputs : List TransactionOutput :=
  [⟨"bob", BitVec.ofNat 128 (2 ^ 127)⟩, ⟨"bob", BitVec.ofNat 128 (2 ^ 127)⟩]

/-- Executing two outputs of `2 ^ 127` increases the supply from 100 by `2 ^ 128 - 11`. -/
theorem supply_increases :
    EngineRun .linked (engineWith "alice" 100)
        [⟨.submitTransaction (aliceTransaction wrappingOutputs), 0⟩]
        (submitted wrappingOutputs) ∧
      supply (engineWith "alice" 100).accounts = 100 ∧
      supply (submitted wrappingOutputs).accounts = 100 ∧
      supply ((submitted wrappingOutputs).step .linked ⟨.executeTransaction "t", 0⟩).accounts =
        100 + (2 ^ 128 - 11) :=
  ⟨submitted_run rfl (by decide) (by decide) (by decide), by decide +kernel⟩

/-- Outputs that fit: 60 to `bob` out of 100, with a fee of 10, after a balance query. -/
theorem supply_never_increases_sixty :
    supply (((submitted [⟨"bob", 60⟩]).step .linked ⟨.getBalance "bob", 0⟩).step .linked
        ⟨.executeTransaction "t", 0⟩).accounts ≤
      supply ((submitted [⟨"bob", 60⟩]).step .linked ⟨.getBalance "bob", 0⟩).accounts ∧
    supply ((submitted [⟨"bob", 60⟩]).step .linked ⟨.getBalance "bob", 0⟩).accounts ≤
      supply (submitted [⟨"bob", 60⟩]).accounts :=
  supply_never_increases .linked (e := ⟨.executeTransaction "t", 0⟩)
    (keyed_submitted [⟨"bob", 60⟩])
    (.snoc (e := ⟨.getBalance "bob", 0⟩) .nil ⟨by decide +kernel, rfl⟩)
    ⟨by decide +kernel, rfl⟩

/-! ### The effect of a confirmed execution -/

/-- The balance that an address is meant to have after a transaction is executed: what the
outputs pay to it is added, and the sender pays all outputs and the fee. -/
def intendedBalance (accounts : Accounts) (tx : Transaction) (address : String) : Int :=
  balanceOf accounts address + paidTo tx.outputs address -
    if address = tx.sender then amountSum tx.outputs + tx.fee.toNat else 0

/-- A confirmed execution, taken apart. -/
theorem accounts_of_confirmed {crates : Crates} {s : TransactionEngine} {txHash : String}
    {now : U64} {tx : Transaction} {result : TransactionExecutionResult}
    (ht : s.findPending txHash = some tx)
    (hx : (s.executeTransaction crates txHash now).1 = .ok result)
    (hc : result.status = .confirmed) :
    CanPay s.accounts tx ∧
      (s.executeTransaction crates txHash now).2.accounts =
        confirmedAccounts s.accounts tx now := by
  by_cases hp : CanPay s.accounts tx
  · exact ⟨hp, by rw [executeTransaction_of_canPay crates now ht hp]; rfl⟩
  · obtain ⟨e, he⟩ := executeTransaction_of_not_canPay crates now ht hp
    rw [he] at hx
    rw [← Except.ok.inj hx] at hc
    cases hc

/-- When the charge and all intended balances are amounts, a confirmed execution leaves
every address with its intended balance exactly when no output pays the sender. -/
theorem intended_effect_iff {crates : Crates} {s : TransactionEngine} {txHash : String}
    {now : U64} {tx : Transaction} {result : TransactionExecutionResult}
    (hk : Keyed s.accounts) (ht : s.findPending txHash = some tx)
    (hx : (s.executeTransaction crates txHash now).1 = .ok result)
    (hc : result.status = .confirmed)
    (hsum : amountSum tx.outputs + tx.fee.toNat < 2 ^ 128)
    (hfit : ∀ a, intendedBalance s.accounts tx a < 2 ^ 128) :
    (∀ a, balanceOf (s.executeTransaction crates txHash now).2.accounts a =
      intendedBalance s.accounts tx a) ↔ paidTo tx.outputs tx.sender = 0 := by
  obtain ⟨hp, ha⟩ := accounts_of_confirmed ht hx hc
  have hn : tx.totalNeeded.toNat = amountSum tx.outputs + tx.fee.toNat := by
    have ho : tx.totalOutput.toNat = amountSum tx.outputs := toNat_totalOutput (by omega)
    rw [Transaction.totalNeeded, Word.toNat_saturatingAdd_of_lt (by omega), ho]
  have hb (a : String) : balanceOf (confirmedAccounts s.accounts tx now) a = _ :=
    balanceOf_confirmedAccounts hk now a
  unfold CanPay at hp
  constructor
  · intro h
    have hs := h tx.sender
    rw [ha, hb, if_pos rfl, intendedBalance, if_pos rfl] at hs
    omega
  · intro hz a
    have hf := hfit a
    rw [ha, hb, intendedBalance]
    rw [intendedBalance] at hf
    by_cases he : a = tx.sender
    · subst he
      rw [if_pos rfl, if_pos rfl]
      omega
    · rw [if_neg he] at hf ⊢
      rw [if_neg he]
      unfold maxAmount
      omega

/-- An intended balance is at most the supply and all outputs together. -/
theorem intendedBalance_le (accounts : Accounts) (tx : Transaction) (a : String) :
    intendedBalance accounts tx a ≤ supply accounts + amountSum tx.outputs := by
  have hb : balanceOf accounts a ≤ supply accounts := Table.valueAt_le_total _ accounts a
  have hp := paidTo_le_amountSum tx.outputs a
  unfold intendedBalance
  split <;> omega

/-- `alice` pays 60 to `bob` and 20 to `carol` out of 100, with a fee of 10. -/
theorem intended_effect_iff_two_outputs :
    (∀ a, balanceOf ((submitted [⟨"bob", 60⟩, ⟨"carol", 20⟩]).executeTransaction .linked "t"
        0).2.accounts a =
      intendedBalance (submitted [⟨"bob", 60⟩, ⟨"carol", 20⟩]).accounts
        (aliceTransaction [⟨"bob", 60⟩, ⟨"carol", 20⟩]) a) ↔
      paidTo [⟨"bob", 60⟩, ⟨"carol", 20⟩] "alice" = 0 := by
  have ht : (submitted [⟨"bob", 60⟩, ⟨"carol", 20⟩]).findPending "t" =
      some (aliceTransaction [⟨"bob", 60⟩, ⟨"carol", 20⟩]) := by decide +kernel
  have hp : CanPay (submitted [⟨"bob", 60⟩, ⟨"carol", 20⟩]).accounts
      (aliceTransaction [⟨"bob", 60⟩, ⟨"carol", 20⟩]) := by decide +kernel
  have hs : supply (submitted [⟨"bob", 60⟩, ⟨"carol", 20⟩]).accounts = 100 := by decide +kernel
  have hx := congrArg Prod.fst (executeTransaction_of_canPay .linked 0 ht hp)
  refine intended_effect_iff (keyed_submitted _) ht hx rfl
    (by decide) ?_
  intro a
  refine (intendedBalance_le _ _ a).trans_lt ?_
  rw [hs]
  decide

/-- Change is lost: `alice` pays 60 to `bob` and 20 back to herself out of 100, with a fee
of 10, and is left with 10 instead of 30. -/
theorem change_is_lost :
    ((submitted [⟨"bob", 60⟩, ⟨"alice", 20⟩]).executeTransaction .linked "t" 0).1.toOption.map
        (·.status) = some .confirmed ∧
      intendedBalance (submitted [⟨"bob", 60⟩, ⟨"alice", 20⟩]).accounts
        (aliceTransaction [⟨"bob", 60⟩, ⟨"alice", 20⟩]) "alice" = 30 ∧
      balanceOf ((submitted [⟨"bob", 60⟩, ⟨"alice", 20⟩]).executeTransaction .linked "t"
        0).2.accounts "alice" = 10 := by
  decide +kernel

end SilverPow.Ledger
