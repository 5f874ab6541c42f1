import SilverPow.Base.Word

/-!
# Transactions and their validation

`src/transaction_engine.rs:166–424`. Amounts are 128-bit words in a release build, where
`Iterator::sum` wraps and the `saturating_*` operations clamp. Hexadecimal decoding and
JSON serialization come from third-party crates and are parameters.
-/

namespace SilverPow.Ledger

open SilverPow.Base

/-- `TransactionStatus`, `src/transaction_engine.rs:168–177`. -/
inductive TransactionStatus where
  | pending
  | confirmed
  | failed
  | finalized
  deriving DecidableEq

/-- `TransactionInput`, `src/transaction_engine.rs:181–188`. -/
structure TransactionInput where
  prevTxHash : String
  outputIndex : U32
  signature : String
  deriving DecidableEq

/-- `TransactionOutput`, `src/transaction_engine.rs:192–197`. -/
structure TransactionOutput where
  recipient : String
  amount : U128
  deriving DecidableEq

/-- `Transaction`, `src/transaction_engine.rs:201–216`. -/
structure Transaction where
  hash : String
  sender : String
  inputs : List TransactionInput
  outputs : List TransactionOutput
  fee : U128
  timestamp : U64
  status : TransactionStatus
  deriving DecidableEq

/-- The third-party functions that the engine calls: `hex::decode` and
`serde_json::to_vec`, both fallible. -/
structure Crates where
  hexDecode : String → Option (List U8)
  jsonBytes : Transaction → Option (List U8)

/-- `silver_core::MIST_PER_SLVR`; the crate is not part of the repository, and the value is
assumed. -/
def mistPerSlvr : U64 := 100_000_000

/-- `MAX_SUPPLY_SLVR`, `src/transaction_engine.rs:272`. -/
def maxSupplySlvr : U64 := 21_000_000

/-- `max_supply` in MIST, `src/transaction_engine.rs:273`. -/
def maxSupply : U128 := maxSupplySlvr.setWidth 128 * mistPerSlvr.setWidth 128

namespace Transaction

/-- The amount that `total_input` assigns to the input at position `i`,
`src/transaction_engine.rs:317–327`. -/
def inputAmount (i : Nat) : U128 :=
  let baseAmount := mistPerSlvr.setWidth 128
  match i with
  | 0 => baseAmount
  | 1 => Word.saturatingMul baseAmount 2
  | 2 => Word.saturatingMul baseAmount 5
  | 3 => Word.saturatingMul baseAmount 10
  | i => Word.saturatingMul baseAmount (BitVec.ofNat 128 i + 1)

/-- One round of the loop of `total_input`, `src/transaction_engine.rs:275–369`: what the
input at position `i` adds, or `none` where the loop continues with the next input. -/
def countedInput (crates : Crates) (i : Nat) (input : TransactionInput) : Option U128 :=
  let amount := inputAmount i
  if input.prevTxHash.isEmpty then none
  else if input.signature.isEmpty then none
  else if input.prevTxHash.utf8ByteSize ≠ 128 then none
  else if (crates.hexDecode input.prevTxHash).isNone then none
  else if amount = 0 then none
  else if maxSupply < amount then none
  else if input.signature.utf8ByteSize ∉ [128, 132, 5120] then none
  else if (crates.hexDecode input.signature).isNone then none
  else some amount

/-- `Transaction::total_input`, `src/transaction_engine.rs:266–380`. -/
def totalInput (crates : Crates) (tx : Transaction) : U128 :=
  tx.inputs.zipIdx.foldl (fun total entry ↦
    match countedInput crates entry.2 entry.1 with
    | some amount => Word.saturatingAdd total amount
    | none => total) 0

/-- `Transaction::total_output`, `src/transaction_engine.rs:383–385`; the sum wraps. -/
def totalOutput (tx : Transaction) : U128 := (tx.outputs.map (·.amount)).sum

/-- `Transaction::validate`, `src/transaction_engine.rs:388–424`. -/
def validate (crates : Crates) (tx : Transaction) : Except String Unit :=
  if tx.sender.isEmpty then .error "Sender address cannot be empty"
  else if tx.inputs.isEmpty then .error "Transaction must have at least one input"
  else if tx.outputs.isEmpty then .error "Transaction must have at least one output"
  else if tx.outputs.any (·.amount == 0) then
    .error "Output amount must be greater than zero"
  else
    let totalOut := tx.totalOutput
    let totalIn := tx.totalInput crates
    if totalIn < totalOut then
      .error s!"Output amount exceeds input: {totalOut.toNat} > {totalIn.toNat}"
    else .ok ()

/-- The amount that the sender is charged: `total_needed` of
`src/transaction_engine.rs:648` and `:737`. -/
def totalNeeded (tx : Transaction) : U128 := Word.saturatingAdd tx.totalOutput tx.fee

/-- A well-formed input counts with the amount of its position. -/
theorem countedInput_eq_some {crates : Crates} {i : Nat} {input : TransactionInput}
    (hp : input.prevTxHash.utf8ByteSize = 128) (hpx : (crates.hexDecode input.prevTxHash).isSome)
    (hs : input.signature.utf8ByteSize = 128) (hsx : (crates.hexDecode input.signature).isSome)
    (h0 : inputAmount i ≠ 0) (hm : inputAmount i ≤ maxSupply) :
    countedInput crates i input = some (inputAmount i) := by
  have he (s : String) (h : s.utf8ByteSize = 128) : s.isEmpty = false := by
    simp [String.isEmpty, h]
  have hpx' := Option.isNone_eq_false_iff.mpr hpx
  have hsx' := Option.isNone_eq_false_iff.mpr hsx
  simp only [countedInput, he _ hp, he _ hs, hp, hs, hpx', hsx', h0, BitVec.not_lt.mpr hm]
  simp

/-- The total of inputs that all count. -/
theorem totalInput_of_counted {crates : Crates} {tx : Transaction}
    (h : ∀ entry ∈ tx.inputs.zipIdx,
      countedInput crates entry.2 entry.1 = some (inputAmount entry.2)) :
    tx.totalInput crates = tx.inputs.zipIdx.foldl (fun total entry ↦
      Word.saturatingAdd total (inputAmount entry.2)) 0 := by
  refine List.foldl_ext _ _ _ fun total entry he ↦ ?_
  rw [h entry he]

/-- A transaction that meets every condition of `validate` passes it. -/
theorem validate_eq_ok {crates : Crates} {tx : Transaction} (hs : tx.sender.isEmpty = false)
    (hi : tx.inputs.isEmpty = false) (ho : tx.outputs.isEmpty = false)
    (hz : ∀ output ∈ tx.outputs, output.amount ≠ 0)
    (hle : tx.totalOutput ≤ tx.totalInput crates) : tx.validate crates = .ok () := by
  have ha : tx.outputs.any (·.amount == 0) = false := by
    rw [List.any_eq_false]
    intro output hm
    rw [beq_iff_eq]
    exact hz output hm
  simp only [validate, hs, hi, ho, ha, Bool.false_eq_true, if_false, if_neg (BitVec.not_lt.mpr hle)]

/-- A validated transaction has an input. -/
theorem inputs_ne_nil_of_validate {crates : Crates} {tx : Transaction}
    (h : tx.validate crates = .ok ()) : tx.inputs ≠ [] := by
  intro he
  simp only [validate, he, List.isEmpty_nil, ↓reduceIte] at h
  split at h <;> cases h

end Transaction

/-- The outpoints that a transaction spends. -/
def outpoints (tx : Transaction) : List (String × U32) :=
  tx.inputs.map fun input ↦ (input.prevTxHash, input.outputIndex)

end SilverPow.Ledger
