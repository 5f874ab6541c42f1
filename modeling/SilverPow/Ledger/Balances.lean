import SilverPow.Ledger.Engine

/-!
# Balances after one execution

The account table of the engine stores every account under its own address; all its
writers keep that. On such a table an output adds its amount to its recipient, capped at
the largest word, and a confirmed execution debits the sender from the balance it had
before the outputs were credited.
-/

namespace SilverPow.Ledger

open SilverPow.Base

/-- Every account is stored under its own address. -/
def Keyed (accounts : Accounts) : Prop :=
  ∀ address account, accounts.lookup address = some account → account.address = address

/-- The balance recorded for an address, zero without an account. -/
def balanceOf (accounts : Accounts) (address : String) : Nat :=
  Table.valueAt (fun account ↦ account.balance.toNat) accounts address

/-- Sum of all account balances. -/
def supply (accounts : Accounts) : Nat :=
  Table.total (fun account ↦ account.balance.toNat) accounts

/-- The largest amount. -/
def maxAmount : Nat := 2 ^ 128 - 1

/-- True sum of the amounts of some outputs. -/
def amountSum (outputs : List TransactionOutput) : Nat :=
  (outputs.map fun output ↦ output.amount.toNat).sum

/-- True sum of the amounts that some outputs pay to an address. -/
def paidTo (outputs : List TransactionOutput) (address : String) : Nat :=
  amountSum (outputs.filter (·.recipient == address))

/-- No address is paid more than all outputs together. -/
theorem paidTo_le_amountSum (outputs : List TransactionOutput) (address : String) :
    paidTo outputs address ≤ amountSum outputs := by
  induction outputs with
  | nil => exact Nat.le_refl _
  | cons output outputs ih =>
    simp only [paidTo, amountSum, List.filter_cons, List.map_cons, List.sum_cons] at ih ⊢
    split
    · simp only [List.map_cons, List.sum_cons]
      omega
    · omega

/-- An empty table is keyed. -/
theorem keyed_empty : Keyed ∅ := by
  intro address account h
  cases h

/-- Storing an account under its address keeps the table keyed. -/
theorem keyed_storeAccount {accounts : Accounts} (h : Keyed accounts) (account : AccountState) :
    Keyed (storeAccount accounts account) :=
  Table.forall_lookup_insert rfl fun address stored _ hs ↦ h address stored hs

/-- Creating a missing account keeps the table keyed. -/
theorem keyed_getOrCreateAccount {accounts : Accounts} (h : Keyed accounts) (address : String)
    (now : U64) : Keyed (getOrCreateAccount accounts address now).2 := by
  unfold getOrCreateAccount Table.entryOrInsert
  cases accounts.lookup address with
  | some account => exact h
  | none => exact keyed_storeAccount h (AccountState.new address now)

/-- In a keyed table the account handed out for an address carries that address. -/
theorem address_getOrCreateAccount {accounts : Accounts} (h : Keyed accounts)
    (address : String) (now : U64) :
    (getOrCreateAccount accounts address now).1.address = address := by
  unfold getOrCreateAccount
  rw [Table.entryOrInsert_fst]
  cases hl : accounts.lookup address with
  | some account => exact h address account hl
  | none => rfl

/-- The account handed out for an address holds the balance recorded for it. -/
theorem balance_getOrCreateAccount (accounts : Accounts) (address : String) (now : U64) :
    (getOrCreateAccount accounts address now).1.balance.toNat = balanceOf accounts address := by
  unfold getOrCreateAccount balanceOf Table.valueAt
  rw [Table.entryOrInsert_fst]
  cases accounts.lookup address <;> rfl

/-- Creating a missing account changes no balance. -/
theorem balanceOf_getOrCreateAccount (accounts : Accounts) (address : String) (now : U64)
    (a : String) : balanceOf (getOrCreateAccount accounts address now).2 a = balanceOf accounts a :=
  Table.valueAt_entryOrInsert _ accounts address rfl a

/-- Creating a missing account leaves the supply as it was. -/
theorem supply_getOrCreateAccount (accounts : Accounts) (address : String) (now : U64) :
    supply (getOrCreateAccount accounts address now).2 = supply accounts :=
  Table.total_entryOrInsert _ accounts address rfl

/-- Storing an account sets the balance of its address only. -/
theorem balanceOf_storeAccount (accounts : Accounts) (account : AccountState) (a : String) :
    balanceOf (storeAccount accounts account) a =
      if a = account.address then account.balance.toNat else balanceOf accounts a :=
  Table.valueAt_insert _ accounts account.address account a

/-- Storing an account replaces its share of the supply. -/
theorem supply_storeAccount (accounts : Accounts) (account : AccountState) :
    supply (storeAccount accounts account) + balanceOf accounts account.address =
      supply accounts + account.balance.toNat :=
  Table.total_insert _ accounts account.address account

/-- No balance exceeds the largest amount. -/
theorem balanceOf_le_maxAmount (accounts : Accounts) (a : String) :
    balanceOf accounts a ≤ maxAmount := by
  unfold balanceOf Table.valueAt
  cases accounts.lookup a with
  | none => exact Nat.zero_le _
  | some account => exact Nat.le_sub_one_of_lt account.balance.isLt

section Outputs

variable (now : U64) {accounts : Accounts} (h : Keyed accounts)
include h

/-- Crediting an output keeps the table keyed. -/
theorem keyed_creditOutput (output : TransactionOutput) :
    Keyed (creditOutput now accounts output) :=
  keyed_storeAccount (keyed_getOrCreateAccount h output.recipient now) _

private theorem address_credited (output : TransactionOutput) :
    (((getOrCreateAccount accounts output.recipient now).1).addBalance output.amount).address =
      output.recipient :=
  address_getOrCreateAccount h output.recipient now

omit h in
private theorem balance_credited (output : TransactionOutput) :
    (((getOrCreateAccount accounts output.recipient now).1).addBalance
      output.amount).balance.toNat =
      min (balanceOf accounts output.recipient + output.amount.toNat) maxAmount := by
  rw [AccountState.addBalance, Word.toNat_saturatingAdd, balance_getOrCreateAccount]
  rfl

/-- An output adds its amount to its recipient, capped, and to nobody else. -/
theorem balanceOf_creditOutput (output : TransactionOutput) (a : String) :
    balanceOf (creditOutput now accounts output) a =
      if a = output.recipient then
        min (balanceOf accounts a + output.amount.toNat) maxAmount
      else balanceOf accounts a := by
  simp only [creditOutput, balanceOf_storeAccount, address_credited now h,
    balance_credited now, balanceOf_getOrCreateAccount]
  split
  · next ha => rw [ha]
  · rfl

/-- An output adds at most its amount to the supply. -/
theorem supply_creditOutput_le (output : TransactionOutput) :
    supply (creditOutput now accounts output) ≤ supply accounts + output.amount.toNat := by
  have hs := supply_storeAccount (getOrCreateAccount accounts output.recipient now).2
    ((getOrCreateAccount accounts output.recipient now).1.addBalance output.amount)
  rw [supply_getOrCreateAccount, address_credited now h, balance_credited now,
    balanceOf_getOrCreateAccount] at hs
  have hm := Nat.min_le_left (balanceOf accounts output.recipient + output.amount.toNat) maxAmount
  change supply (creditOutput now accounts output) + _ = _ at hs
  omega

end Outputs

section OutputLoop

variable (now : U64)

/-- The output loop keeps the table keyed. -/
theorem keyed_foldl_creditOutput (outputs : List TransactionOutput) {accounts : Accounts}
    (h : Keyed accounts) : Keyed (outputs.foldl (creditOutput now) accounts) := by
  induction outputs generalizing accounts with
  | nil => exact h
  | cons output outputs ih => exact ih (keyed_creditOutput now h output)

/-- The output loop adds to every address what the outputs pay to it, capped. -/
theorem balanceOf_foldl_creditOutput (outputs : List TransactionOutput) {accounts : Accounts}
    (h : Keyed accounts) (a : String) :
    balanceOf (outputs.foldl (creditOutput now) accounts) a =
      min (balanceOf accounts a + paidTo outputs a) maxAmount := by
  induction outputs generalizing accounts with
  | nil =>
    have hb := balanceOf_le_maxAmount accounts a
    simp only [List.foldl_nil, paidTo, amountSum, List.filter_nil, List.map_nil, List.sum_nil]
    omega
  | cons output outputs ih =>
    rw [List.foldl_cons, ih (keyed_creditOutput now h output), balanceOf_creditOutput now h]
    by_cases ha : a = output.recipient
    · have hp : paidTo (output :: outputs) a = output.amount.toNat + paidTo outputs a := by
        simp [paidTo, amountSum, ha]
      rw [if_pos ha, hp]
      omega
    · have hp : paidTo (output :: outputs) a = paidTo outputs a := by
        simp [paidTo, amountSum, Ne.symm ha]
      rw [if_neg ha, hp]

/-- The output loop adds at most the true sum of the outputs to the supply. -/
theorem supply_foldl_creditOutput_le (outputs : List TransactionOutput) {accounts : Accounts}
    (h : Keyed accounts) :
    supply (outputs.foldl (creditOutput now) accounts) ≤ supply accounts + amountSum outputs := by
  induction outputs generalizing accounts with
  | nil => exact Nat.le_add_right _ _
  | cons output outputs ih =>
    have hi := ih (keyed_creditOutput now h output)
    have hc := supply_creditOutput_le now h output
    have hs : amountSum (output :: outputs) = output.amount.toNat + amountSum outputs := by
      simp [amountSum]
    rw [List.foldl_cons]
    omega

end OutputLoop

end SilverPow.Ledger
