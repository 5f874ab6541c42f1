import SilverPow.Ledger.UtxoValidation

/-!
# What the check against the UTXO set refuses

`validate_with_utxo_set` first runs `validate`, which does not see the set: `total_input`
gives the inputs amounts by their position, one, two, five and ten SLVR and then one more for
each. A transaction whose coins pay for it is refused when its outputs exceed the amounts of as
many positions.
-/

namespace SilverPow.Ledger

open SilverPow.Base

/-- A transaction that the coins of its sender pay for. -/
structure PaidFor (crates : Crates) (set : UTXOSet) (tx : Transaction) : Prop where
  sender : tx.sender ≠ ""
  inputs : tx.inputs ≠ []
  distinct : tx.inputs.Nodup
  outputs : tx.outputs ≠ []
  positive : ∀ output ∈ tx.outputs, output.amount ≠ 0
  coins : ∀ input ∈ tx.inputs, ∃ utxo,
    set.getUtxo input.prevTxHash input.outputIndex = some utxo ∧ utxo.spent = false ∧
      utxo.recipient = tx.sender ∧ 0 < utxo.amount ∧ utxo.amount ≤ maxSupply
  hashes : ∀ input ∈ tx.inputs,
    input.prevTxHash.utf8ByteSize = 128 ∧ (crates.hexDecode input.prevTxHash).isSome
  signatures : ∀ input ∈ tx.inputs,
    input.signature.utf8ByteSize = 128 ∧ (crates.hexDecode input.signature).isSome
  paid : amountSum tx.outputs + tx.fee.toNat ≤ storedSum set (outpoints tx)
  bounded : storedSum set (outpoints tx) < 2 ^ 128

/-- The amounts of the first positions, in MIST: one, three, eight and eighteen SLVR for up to
four inputs. Positions above the supply count nothing. -/
def positionAllowance (inputs : Nat) : Nat :=
  100_000_000 * match min inputs 21_000_000 with
    | 0 => 0
    | 1 => 1
    | 2 => 3
    | 3 => 8
    | n => n * (n + 1) / 2 + 8

/-- The amount of one position, in SLVR. -/
def positionWeight : Nat → Nat
  | 0 => 1
  | 1 => 2
  | 2 => 5
  | 3 => 10
  | i => i + 1

theorem positionWeight_of_lt {i : Nat} (h : 3 < i) : positionWeight i = i + 1 := by
  unfold positionWeight
  split <;> omega

theorem positionAllowance_of_le {n : Nat} (h4 : 4 ≤ n) (hn : n ≤ 21_000_000) :
    positionAllowance n = 100_000_000 * (n * (n + 1) / 2 + 8) := by
  unfold positionAllowance
  rw [Nat.min_eq_left hn]
  split <;> first | omega | rfl

/-- One position more. -/
theorem positionAllowance_succ (n : Nat) :
    positionAllowance (n + 1) =
      positionAllowance n + if n < 21_000_000 then 100_000_000 * positionWeight n else 0 := by
  split
  · next hn =>
    match n with
    | 0 | 1 | 2 | 3 => rfl
    | n + 4 =>
      have hsq : (n + 4 + 1) * (n + 4 + 1 + 1) = (n + 4) * (n + 4 + 1) + 2 * (n + 4 + 1) := by
        ring
      rw [positionAllowance_of_le (by omega) (by omega), positionAllowance_of_le (by omega)
        (by omega), positionWeight_of_lt (by omega), hsq]
      omega
  · next hn =>
    unfold positionAllowance
    rw [Nat.min_eq_right (by omega), Nat.min_eq_right (by omega)]
    rfl

theorem positionAllowance_min (n : Nat) :
    positionAllowance (min n 21_000_000) = positionAllowance n := by
  unfold positionAllowance
  rw [Nat.min_assoc, Nat.min_self]

theorem positionAllowance_lt (n : Nat) : positionAllowance n < 2 ^ 127 := by
  rw [← positionAllowance_min]
  have hm : min n 21_000_000 ≤ 21_000_000 := Nat.min_le_right _ _
  generalize min n 21_000_000 = m at hm
  match m with
  | 0 | 1 | 2 | 3 => decide
  | m + 4 =>
    rw [positionAllowance_of_le (by omega) hm]
    have hsq : (m + 4) * (m + 4 + 1) ≤ 21_000_000 * (21_000_000 + 1) :=
      Nat.mul_le_mul hm (Nat.succ_le_succ hm)
    omega

theorem positionWeight_le_iff (i : Nat) : positionWeight i ≤ 21_000_000 ↔ i < 21_000_000 := by
  match i with
  | 0 | 1 | 2 | 3 => decide
  | i + 4 =>
    rw [positionWeight_of_lt (by omega)]
    omega

namespace Transaction

theorem toNat_inputAmount {i : Nat} (h : i + 1 < 2 ^ 128) :
    (inputAmount i).toNat = min (100_000_000 * positionWeight i) (2 ^ 128 - 1) := by
  match i with
  | 0 | 1 | 2 | 3 => decide
  | i + 4 =>
    have hw : (BitVec.ofNat 128 (i + 4) + 1).toNat = i + 4 + 1 := by
      rw [show BitVec.ofNat 128 (i + 4) + 1 = BitVec.ofNat 128 (i + 4 + 1) from
        (BitVec.ofNat_add (i + 4) 1).symm, BitVec.toNat_ofNat]
      exact Nat.mod_eq_of_lt h
    have hlarge : inputAmount (i + 4) =
        Word.saturatingMul (mistPerSlvr.setWidth 128) (BitVec.ofNat 128 (i + 4) + 1) := by
      unfold inputAmount
      rfl
    rw [hlarge, Word.toNat_saturatingMul, hw, positionWeight_of_lt (by omega)]
    rfl

theorem inputAmount_ne_zero {i : Nat} (h : i + 1 < 2 ^ 128) : inputAmount i ≠ 0 := by
  intro h0
  have hw := toNat_inputAmount h
  have hpos : 0 < positionWeight i := by
    unfold positionWeight
    split <;> omega
  rw [h0, show (0 : U128).toNat = 0 from rfl] at hw
  omega

/-- Up to the supply a position counts. -/
theorem inputAmount_le_maxSupply_iff {i : Nat} (h : i + 1 < 2 ^ 128) :
    inputAmount i ≤ maxSupply ↔ i < 21_000_000 := by
  rw [BitVec.le_def, toNat_inputAmount h, ← positionWeight_le_iff,
    show maxSupply.toNat = 2_100_000_000_000_000 from rfl]
  omega

/-- A well-formed input counts with the amount of its position, up to the supply. -/
theorem countedInput_of_position {crates : Crates} {i : Nat} {input : TransactionInput}
    (hi : i + 1 < 2 ^ 128)
    (hp : input.prevTxHash.utf8ByteSize = 128 ∧ (crates.hexDecode input.prevTxHash).isSome)
    (hs : input.signature.utf8ByteSize = 128 ∧ (crates.hexDecode input.signature).isSome) :
    countedInput crates i input = if i < 21_000_000 then some (inputAmount i) else none := by
  split
  · next h =>
    exact countedInput_eq_some hp.1 hp.2 hs.1 hs.2 (inputAmount_ne_zero hi)
      ((inputAmount_le_maxSupply_iff hi).mpr h)
  · next h =>
    have hgt : maxSupply < inputAmount i := by
      rw [← inputAmount_le_maxSupply_iff hi] at h
      exact BitVec.not_le.mp h
    unfold countedInput
    dsimp only
    split_ifs <;> rfl

/-- The total of well-formed inputs depends on their number only. -/
theorem toNat_totalInput {crates : Crates} {tx : Transaction}
    (hp : ∀ input ∈ tx.inputs,
      input.prevTxHash.utf8ByteSize = 128 ∧ (crates.hexDecode input.prevTxHash).isSome)
    (hs : ∀ input ∈ tx.inputs,
      input.signature.utf8ByteSize = 128 ∧ (crates.hexDecode input.signature).isSome)
    (hl : tx.inputs.length < 2 ^ 128) :
    (tx.totalInput crates).toNat = positionAllowance tx.inputs.length := by
  unfold totalInput
  generalize tx.inputs = inputs at hp hs hl
  induction inputs using List.reverseRecOn with
  | nil => rfl
  | append_singleton inputs input ih =>
    rw [List.length_append, List.length_singleton] at hl ⊢
    have hi := ih (fun input h ↦ hp input (List.mem_append_left _ h))
      (fun input h ↦ hs input (List.mem_append_left _ h)) (by omega)
    have hmem : input ∈ inputs ++ [input] := by simp
    have hsucc := positionAllowance_succ inputs.length
    rw [List.zipIdx_append, List.foldl_append, List.zipIdx_singleton, List.foldl_cons,
      List.foldl_nil, Nat.zero_add]
    dsimp only
    rw [countedInput_of_position (by omega) (hp _ hmem) (hs _ hmem)]
    by_cases h : inputs.length < 21_000_000
    · have hlt := positionAllowance_lt (inputs.length + 1)
      rw [if_pos h] at hsucc ⊢
      dsimp only
      rw [Word.toNat_saturatingAdd, hi, toNat_inputAmount (by omega)]
      omega
    · rw [if_neg h] at hsucc ⊢
      dsimp only
      rw [hi]
      omega

end Transaction

section PaidFor

variable {crates : Crates} {set : UTXOSet} {tx : Transaction} (h : PaidFor crates set tx)
include h

/-- Every coin is worth something, so there are fewer inputs than amounts. -/
theorem PaidFor.length_lt : tx.inputs.length < 2 ^ 128 := by
  have hpos : ∀ o ∈ outpoints tx, 0 < storedAmount set o := by
    intro o ho
    obtain ⟨input, hi, rfl⟩ := List.mem_map.mp ho
    obtain ⟨utxo, hg, -, -, h0, -⟩ := h.coins input hi
    rw [storedAmount, hg]
    exact BitVec.lt_def.mp h0
  have hle := length_le_storedSum hpos
  rw [outpoints, List.length_map] at hle
  exact hle.trans_lt h.bounded

/-- The coins pass the checks of the loop. -/
theorem PaidFor.inputPasses : ∀ input ∈ tx.inputs, InputPasses crates set tx input := by
  intro input hi
  obtain ⟨utxo, hg, hs, hr, h0, hm⟩ := h.coins input hi
  exact ⟨utxo, hg, hs, Word.ne_zero_of_lt h0, hm, hr, h.signatures input hi⟩

theorem PaidFor.toNat_totalNeeded :
    tx.totalOutput.toNat = amountSum tx.outputs ∧
      tx.totalNeeded.toNat = amountSum tx.outputs + tx.fee.toNat := by
  have hpaid := h.paid
  have hbounded := h.bounded
  have ho : tx.totalOutput.toNat = amountSum tx.outputs := toNat_totalOutput (by omega)
  refine ⟨ho, ?_⟩
  rw [Transaction.totalNeeded, Word.toNat_saturatingAdd_of_lt (by omega), ho]

/-- Basic validation compares the outputs with the amounts of the positions. -/
theorem PaidFor.validate_ok_iff :
    tx.validate crates = .ok () ↔ amountSum tx.outputs ≤ positionAllowance tx.inputs.length := by
  have hin := Transaction.toNat_totalInput h.hashes h.signatures h.length_lt
  have hsender : tx.sender.isEmpty = false := by simpa using h.sender
  have hinputs : tx.inputs.isEmpty = false := by simpa using h.inputs
  have houtputs : tx.outputs.isEmpty = false := by simpa using h.outputs
  constructor
  · intro hok
    by_contra hgt
    have hlt : tx.totalInput crates < tx.totalOutput := by
      rw [BitVec.lt_def, hin, h.toNat_totalNeeded.1]
      omega
    have hz : tx.outputs.any (·.amount == 0) = false := by
      rw [List.any_eq_false]
      intro output ho
      rw [beq_iff_eq]
      exact h.positive output ho
    simp only [Transaction.validate, hsender, hinputs, houtputs, hz, Bool.false_eq_true, if_false,
      if_pos hlt] at hok
    cases hok
  · intro hle
    apply Transaction.validate_eq_ok hsender hinputs houtputs h.positive
    rw [BitVec.le_def, hin, h.toNat_totalNeeded.1]
    exact hle

end PaidFor

/-- A transaction that coins of its sender pay for is accepted exactly when its outputs are at
most the amounts of as many positions as it has inputs. -/
theorem validateWithUtxoSet_complete_iff {crates : Crates} {set : UTXOSet} {tx : Transaction}
    (h : PaidFor crates set tx) :
    tx.validateWithUtxoSet crates set = .ok () ↔
      amountSum tx.outputs ≤ positionAllowance tx.inputs.length := by
  rw [validateWithUtxoSet_ok_iff, ← h.validate_ok_iff]
  constructor
  · exact And.left
  · intro hok
    refine ⟨hok, h.inputPasses, ?_⟩
    rw [h.toNat_totalNeeded.2]
    exact h.paid

/-- A coin of five SLVR. -/
def fiveUtxo : UTXOEntry := { aliceUtxo with amount := 500_000_000 }

/-- The set with that coin. -/
def UTXOSet.withFiveUtxo : UTXOSet := UTXOSet.new.after Hex.base16.decode (.addUtxo fiveUtxo)

theorem storable_fiveUtxo : Storable Hex.base16.decode fiveUtxo :=
  ⟨by decide, storable_aliceUtxo.2⟩

theorem getUtxo_fiveUtxo :
    UTXOSet.withFiveUtxo.getUtxo aliceInput.prevTxHash aliceInput.outputIndex = some fiveUtxo :=
  UTXOSet.getUtxo_addUtxo storable_fiveUtxo

/-- The coin pays for outputs of one or two SLVR. -/
theorem paidFor_fiveUtxo (amount : U128) (h0 : amount ≠ 0) (hle : amount ≤ 200_000_000) :
    PaidFor .linked UTXOSet.withFiveUtxo (aliceTransaction [⟨"bob", amount⟩]) := by
  have hstored : storedSum UTXOSet.withFiveUtxo (outpoints (aliceTransaction [⟨"bob", amount⟩])) =
      500_000_000 := by
    rw [show outpoints (aliceTransaction [⟨"bob", amount⟩]) =
      [(aliceInput.prevTxHash, aliceInput.outputIndex)] from rfl, storedSum, List.map_singleton,
      List.sum_singleton, storedAmount, getUtxo_fiveUtxo]
    rfl
  have hsum : amountSum (aliceTransaction [⟨"bob", amount⟩]).outputs = amount.toNat := by
    rw [show (aliceTransaction [⟨"bob", amount⟩]).outputs = [⟨"bob", amount⟩] from rfl]
    simp [amountSum]
  have hamount : amount.toNat ≤ 200_000_000 := BitVec.le_def.mp hle
  exact {
    sender := (by decide : "alice" ≠ "")
    inputs := List.cons_ne_nil _ _
    distinct := List.nodup_singleton _
    outputs := List.cons_ne_nil _ _
    positive := fun output ho ↦ by
      rw [List.mem_singleton.mp ho]
      exact h0
    coins := fun input hi ↦ by
      rw [List.mem_singleton.mp hi]
      exact ⟨fiveUtxo, getUtxo_fiveUtxo, rfl, rfl, by decide, by decide⟩
    hashes := fun input hi ↦ by
      rw [List.mem_singleton.mp hi]
      exact aliceInput_prevTxHash
    signatures := fun input hi ↦ by
      rw [List.mem_singleton.mp hi]
      exact aliceInput_signature
    paid := by
      rw [hstored, hsum, show (aliceTransaction [⟨"bob", amount⟩]).fee.toNat = 10 from rfl]
      omega
    bounded := by
      rw [hstored]
      decide }

/-- An output of one SLVR is what the first position allows. -/
theorem one_slvr_accepted :
    (aliceTransaction [⟨"bob", 100_000_000⟩]).validateWithUtxoSet .linked UTXOSet.withFiveUtxo =
      .ok () :=
  (validateWithUtxoSet_complete_iff (paidFor_fiveUtxo _ (by decide) (by decide))).mpr (by decide)

/-- An output of two SLVR from the same coin is refused. -/
theorem two_slvr_refused :
    ¬∀ (crates : Crates) (set : UTXOSet) (tx : Transaction), PaidFor crates set tx →
      tx.validateWithUtxoSet crates set = .ok () := by
  intro h
  have hpaid := paidFor_fiveUtxo 200_000_000 (by decide) (by decide)
  have hok := h _ _ _ hpaid
  rw [validateWithUtxoSet_ok_iff] at hok
  exact absurd (hpaid.validate_ok_iff.mp hok.1) (by decide)

end SilverPow.Ledger
