import Mathlib.Data.List.Dedup
import SilverPow.Ledger.Supply

/-!
# Validation against the UTXO set

`src/transaction_engine.rs:426–536`. The check adds up the stored amounts once for every
input, also when two inputs name one outpoint, and compares with an output sum that wraps.
An accepted transaction spends coins of its sender. Which transactions these coins cover in
every reachable set can be told from the transaction alone: coins that make the check accept
any other can be added to an empty set.
-/

namespace SilverPow.Ledger

open SilverPow.Base

namespace Transaction

/-- One round of the loop over the inputs, `src/transaction_engine.rs:446–512`: the total
with the amount of the input at position `i`. -/
def addInput (crates : Crates) (set : UTXOSet) (tx : Transaction) (total : U128)
    (entry : TransactionInput × Nat) : Except String U128 :=
  let (input, i) := entry
  let key := outpointKey input.prevTxHash input.outputIndex
  match set.getUtxo input.prevTxHash input.outputIndex with
  | some utxo =>
    if utxo.spent then .error s!"Input {i}: UTXO already spent ({key})"
    else if utxo.amount = 0 then .error s!"Input {i}: UTXO amount is zero ({key})"
    else if maxSupply < utxo.amount then
      .error (s!"Input {i}: UTXO amount {utxo.amount.toNat} exceeds max supply " ++
        s!"{maxSupply.toNat}")
    else if utxo.recipient ≠ tx.sender then
      .error s!"Input {i}: UTXO recipient {utxo.recipient} doesn't match sender {tx.sender}"
    else if input.signature.utf8ByteSize ≠ 128 then
      .error (s!"Input {i}: Invalid signature length {input.signature.utf8ByteSize} " ++
        "(expected 128)")
    else if (crates.hexDecode input.signature).isNone then
      .error s!"Input {i}: Signature is not valid hex"
    else .ok (Word.saturatingAdd total utxo.amount)
  | none => .error s!"Input {i}: UTXO not found in database ({key})"

/-- `Transaction::validate_with_utxo_set`, `src/transaction_engine.rs:428–536`. -/
def validateWithUtxoSet (crates : Crates) (tx : Transaction) (set : UTXOSet) :
    Except String Unit :=
  match tx.validate crates with
  | .error e => .error e
  | .ok () =>
    match tx.inputs.zipIdx.foldlM (addInput crates set tx) 0 with
    | .error e => .error e
    | .ok totalInput =>
      if totalInput < tx.totalNeeded then
        .error (s!"Insufficient input: {totalInput.toNat} < {tx.totalNeeded.toNat} " ++
          s!"(output: {tx.totalOutput.toNat}, fee: {tx.fee.toNat})")
      else .ok ()

end Transaction

/-- The amount stored for an outpoint, zero without an entry. -/
def storedAmount (set : UTXOSet) (o : String × U32) : Nat :=
  (set.getUtxo o.1 o.2).elim 0 fun utxo ↦ utxo.amount.toNat

/-- True sum of the amounts stored for some outpoints. -/
def storedSum (set : UTXOSet) (os : List (String × U32)) : Nat := (os.map (storedAmount set)).sum

/-- Every input refers to a stored and unspent entry of its outpoint that belongs to the
sender. -/
def SpendsOwnCoins (set : UTXOSet) (tx : Transaction) : Prop :=
  ∀ input ∈ tx.inputs, ∃ utxo, set.getUtxo input.prevTxHash input.outputIndex = some utxo ∧
    utxo.txHash = input.prevTxHash ∧ utxo.outputIndex = input.outputIndex ∧
    utxo.spent = false ∧ utxo.recipient = tx.sender

/-- The distinct outpoints that the inputs refer to hold the outputs and the fee. -/
def Covered (set : UTXOSet) (tx : Transaction) : Prop :=
  amountSum tx.outputs + tx.fee.toNat ≤ storedSum set (outpoints tx).dedup

/-- An input passes all checks of the loop. -/
def InputPasses (crates : Crates) (set : UTXOSet) (tx : Transaction) (input : TransactionInput) :
    Prop :=
  ∃ utxo, set.getUtxo input.prevTxHash input.outputIndex = some utxo ∧ utxo.spent = false ∧
    utxo.amount ≠ 0 ∧ utxo.amount ≤ maxSupply ∧ utxo.recipient = tx.sender ∧
    input.signature.utf8ByteSize = 128 ∧ (crates.hexDecode input.signature).isSome

/-- No check refuses the transaction before the totals are compared, and the sum over all
inputs reaches the computed charge. -/
def Passes (crates : Crates) (set : UTXOSet) (tx : Transaction) : Prop :=
  tx.validate crates = .ok () ∧ (∀ input ∈ tx.inputs, InputPasses crates set tx input) ∧
    tx.totalNeeded.toNat ≤ storedSum set (outpoints tx)

/-- The checks of a transaction that do not look at the set, and those that `add_utxo` made of
the hashes that its inputs name. -/
structure Checked (crates : Crates) (tx : Transaction) : Prop where
  valid : tx.validate crates = .ok ()
  hashes : ∀ input ∈ tx.inputs,
    input.prevTxHash.utf8ByteSize = 128 ∧ (crates.hexDecode input.prevTxHash).isSome
  signatures : ∀ input ∈ tx.inputs,
    input.signature.utf8ByteSize = 128 ∧ (crates.hexDecode input.signature).isSome

/-- So many inputs with the largest coins are worth less than the fee and what is left of the
outputs when whole multiples of `2 ^ 128` are dropped. -/
def TooFewInputs (tx : Transaction) : Prop :=
  tx.inputs.length * maxSupply.toNat < 2 ^ 128 - 1 ∧
    tx.inputs.length * maxSupply.toNat < amountSum tx.outputs % 2 ^ 128 + tx.fee.toNat

/-- A transaction that no set makes the check accept without the coins for it: its outpoints are
distinct and nothing wraps, it is refused in any case, it has too few inputs, or its distinct
outpoints are as many as what it has to pay. -/
def NeverShort (crates : Crates) (tx : Transaction) : Prop :=
  (outpoints tx).Nodup ∧ amountSum tx.outputs + tx.fee.toNat < 2 ^ 128 ∨
    ¬Checked crates tx ∨ TooFewInputs tx ∨
    amountSum tx.outputs + tx.fee.toNat ≤ (outpoints tx).dedup.length

section Loop

variable {crates : Crates} {set : UTXOSet} {tx : Transaction}

/-- A round of the loop succeeds exactly when the input passes, and adds its amount. -/
theorem addInput_ok_iff {total t : U128} {entry : TransactionInput × Nat} :
    tx.addInput crates set total entry = .ok t ↔
      InputPasses crates set tx entry.1 ∧ t.toNat = min
        (total.toNat + storedAmount set (entry.1.prevTxHash, entry.1.outputIndex)) maxAmount := by
  unfold Transaction.addInput InputPasses storedAmount
  dsimp only
  cases set.getUtxo entry.1.prevTxHash entry.1.outputIndex with
  | none => simp
  | some utxo =>
    have ht : Word.saturatingAdd total utxo.amount = t ↔
        t.toNat = min (total.toNat + utxo.amount.toNat) maxAmount := by
      rw [maxAmount, ← Word.toNat_saturatingAdd, eq_comm]
      exact ⟨congrArg _, BitVec.eq_of_toNat_eq⟩
    simp only [Option.some.injEq, exists_eq_left', Option.elim_some]
    split_ifs with hs hz hm hr hl hx
    · simp [hs]
    · simp [hz]
    · simp [BitVec.not_le.mpr hm]
    · simp [hr]
    · simp [hl]
    · simp [Option.isNone_iff_eq_none.mp hx]
    · rw [Except.ok.injEq, ht, iff_and_self]
      intro _
      exact ⟨by simpa using hs, hz, BitVec.not_lt.mp hm, not_not.mp hr, not_not.mp hl,
        by simpa [Option.isSome_iff_ne_none] using hx⟩

private theorem toNat_ofNat_min (n : Nat) :
    (BitVec.ofNat 128 (min n maxAmount)).toNat = min n maxAmount := by
  rw [BitVec.toNat_ofNat, Nat.mod_eq_of_lt]
  unfold maxAmount
  omega

/-- The loop succeeds exactly when all inputs pass, and adds up all their amounts. -/
theorem foldlM_addInput_ok_iff {entries : List (TransactionInput × Nat)} {total t : U128} :
    entries.foldlM (tx.addInput crates set) total = .ok t ↔
      (∀ entry ∈ entries, InputPasses crates set tx entry.1) ∧ t.toNat = min
        (total.toNat +
          storedSum set (entries.map fun entry ↦ (entry.1.prevTxHash, entry.1.outputIndex)))
        maxAmount := by
  induction entries generalizing total with
  | nil =>
    have hle : total.toNat ≤ maxAmount := Nat.le_sub_one_of_lt total.isLt
    rw [List.foldlM_nil, storedSum, List.map_nil, List.map_nil, List.sum_nil, Nat.add_zero,
      Nat.min_eq_left hle]
    simp [pure, Except.pure, BitVec.toNat_inj, eq_comm]
  | cons entry entries ih =>
    rw [List.foldlM_cons, List.forall_mem_cons, List.map_cons, storedSum, List.map_cons,
      List.sum_cons]
    cases ha : tx.addInput crates set total entry with
    | error e =>
      refine ⟨fun h ↦ (nomatch h), fun h ↦ ?_⟩
      cases ha.symm.trans (addInput_ok_iff.mpr ⟨h.1.1, toNat_ofNat_min _⟩)
    | ok t' =>
      obtain ⟨hp, ht⟩ := addInput_ok_iff.mp ha
      have hmin : min (t'.toNat + storedSum set
            (entries.map fun entry ↦ (entry.1.prevTxHash, entry.1.outputIndex))) maxAmount =
          min (total.toNat + (storedAmount set (entry.1.prevTxHash, entry.1.outputIndex) +
            storedSum set (entries.map fun entry ↦ (entry.1.prevTxHash, entry.1.outputIndex))))
            maxAmount := by
        omega
      change entries.foldlM (tx.addInput crates set) t' = .ok t ↔ _
      rw [ih, hmin, and_iff_right hp]
      rfl

/-- The check accepts exactly the transactions that no comparison refuses. -/
theorem validateWithUtxoSet_ok_iff :
    tx.validateWithUtxoSet crates set = .ok () ↔ Passes crates set tx := by
  have hfst : tx.inputs.zipIdx.map Prod.fst = tx.inputs := List.zipIdx_map_fst 0 _
  have hloop : ∀ t, tx.inputs.zipIdx.foldlM (tx.addInput crates set) 0 = .ok t ↔
      (∀ input ∈ tx.inputs, InputPasses crates set tx input) ∧
        t.toNat = min (storedSum set (outpoints tx)) maxAmount := by
    intro t
    have hos : outpoints tx = tx.inputs.zipIdx.map fun entry ↦
        (entry.1.prevTxHash, entry.1.outputIndex) := by
      conv_lhs => rw [outpoints, ← hfst, List.map_map]
      rfl
    have hall : (∀ input ∈ tx.inputs, InputPasses crates set tx input) ↔
        ∀ entry ∈ tx.inputs.zipIdx, InputPasses crates set tx entry.1 := by
      conv_lhs => rw [← hfst]
      exact List.forall_mem_map
    rw [foldlM_addInput_ok_iff, hall, hos, show (0 : U128).toNat = 0 from rfl, Nat.zero_add]
  have hneeded : tx.totalNeeded.toNat ≤ maxAmount := Nat.le_sub_one_of_lt tx.totalNeeded.isLt
  unfold Transaction.validateWithUtxoSet Passes
  cases tx.validate crates with
  | error e => simp
  | ok u =>
    dsimp only
    cases hf : tx.inputs.zipIdx.foldlM (tx.addInput crates set) 0 with
    | error e =>
      refine ⟨fun h ↦ (nomatch h), fun h ↦ ?_⟩
      cases hf.symm.trans ((hloop _).mpr ⟨h.2.1, toNat_ofNat_min _⟩)
    | ok totalInput =>
      obtain ⟨hp, ht⟩ := (hloop totalInput).mp hf
      dsimp only
      split
      · next hlt =>
        rw [BitVec.lt_def] at hlt
        refine ⟨fun h ↦ (nomatch h), fun h ↦ ?_⟩
        have := h.2.2
        omega
      · next hlt =>
        rw [BitVec.lt_def] at hlt
        exact ⟨fun _ ↦ ⟨rfl, hp, by omega⟩, fun _ ↦ rfl⟩

/-- Inputs that pass spend coins of the sender, in a set whose entries are stored under
their own keys. -/
theorem spendsOwnCoins_of_passes (hk : set.SelfKeyed)
    (h : ∀ input ∈ tx.inputs, InputPasses crates set tx input) : SpendsOwnCoins set tx := by
  intro input hi
  obtain ⟨utxo, hg, hs, -, -, hr, -⟩ := h input hi
  obtain ⟨hh, ho⟩ := outpointKey_inj.mp (hk _ _ hg)
  exact ⟨utxo, hg, hh, ho, hs, hr⟩

/-- The outputs wrap, and adding the fee saturates. -/
theorem toNat_totalNeeded (tx : Transaction) :
    tx.totalNeeded.toNat = min (amountSum tx.outputs % 2 ^ 128 + tx.fee.toNat) maxAmount := by
  have ho : tx.totalOutput.toNat = amountSum tx.outputs % 2 ^ 128 := by
    rw [Transaction.totalOutput, Word.toNat_sum, List.map_map]
    rfl
  rw [Transaction.totalNeeded, Word.toNat_saturatingAdd, ho]
  rfl

end Loop

/-! ### Coins that cover what is accepted -/

section Sums

variable {α : Type} [DecidableEq α] (f : α → Nat)

theorem sum_dedup_le (l : List α) : (l.dedup.map f).sum ≤ (l.map f).sum :=
  ((List.dedup_sublist l).map f).sum_le_sum fun _ _ ↦ Nat.zero_le _

/-- What is counted again makes the sum larger. -/
theorem sum_dedup_lt {l : List α} (hf : ∀ a ∈ l, 1 ≤ f a) (h : ¬l.Nodup) :
    (l.dedup.map f).sum < (l.map f).sum := by
  induction l with
  | nil => exact absurd List.nodup_nil h
  | cons a l ih =>
    rw [List.forall_mem_cons] at hf
    rw [List.map_cons, List.sum_cons]
    by_cases ha : a ∈ l
    · have hle := sum_dedup_le f l
      rw [List.dedup_cons_of_mem ha]
      omega
    · have hl : ¬l.Nodup := fun hl ↦ h (List.nodup_cons.mpr ⟨ha, hl⟩)
      have hlt := ih hf.2 hl
      rw [List.dedup_cons_of_notMem ha, List.map_cons, List.sum_cons]
      omega

/-- Any total between the smallest and the largest can be shared out. -/
theorem exists_shares {l : List α} (hl : l.Nodup) {limit total : Nat} (hlimit : 1 ≤ limit)
    (hlow : l.length ≤ total) (hhigh : total ≤ l.length * limit) :
    ∃ f : α → Nat, (∀ a, 1 ≤ f a ∧ f a ≤ limit) ∧ (l.map f).sum = total := by
  induction l generalizing total with
  | nil =>
    rw [List.length_nil, Nat.zero_mul, Nat.le_zero] at hhigh
    exact ⟨fun _ ↦ 1, fun _ ↦ ⟨le_rfl, hlimit⟩, hhigh.symm⟩
  | cons a l ih =>
    obtain ⟨ha, hl⟩ := List.nodup_cons.mp hl
    rw [List.length_cons] at hlow hhigh
    rw [Nat.succ_mul] at hhigh
    -- The first takes what the others can spare.
    let share := min limit (total - l.length)
    have hshare : 1 ≤ share ∧ share ≤ limit := by omega
    have hle : l.length ≤ l.length * limit := Nat.le_mul_of_pos_right _ hlimit
    obtain ⟨f, hf, hsum⟩ := ih hl (show l.length ≤ total - share by omega) (by omega)
    refine ⟨Function.update f a share, fun b ↦ ?_, ?_⟩
    · by_cases hb : b = a
      · rw [hb, Function.update_self]
        exact hshare
      · rw [Function.update_of_ne hb]
        exact hf b
    · have hsame : l.map (Function.update f a share) = l.map f :=
        List.map_congr_left fun b hb ↦ Function.update_of_ne (ne_of_mem_of_not_mem hb ha) ..
      rw [List.map_cons, List.sum_cons, Function.update_self, hsame, hsum]
      omega

end Sums

section Stored

variable {set : UTXOSet} {os : List (String × U32)}

theorem length_le_storedSum (h : ∀ o ∈ os, 0 < storedAmount set o) :
    os.length ≤ storedSum set os := by
  induction os with
  | nil => exact Nat.zero_le _
  | cons o os ih =>
    obtain ⟨ho, hos⟩ := List.forall_mem_cons.mp h
    have hi := ih hos
    unfold storedSum at hi ⊢
    rw [List.map_cons, List.sum_cons, List.length_cons]
    omega

theorem storedSum_le {limit : Nat} (h : ∀ o ∈ os, storedAmount set o ≤ limit) :
    storedSum set os ≤ os.length * limit := by
  have hsum := List.sum_le_card_nsmul (os.map (storedAmount set)) limit fun amount ha ↦ by
    obtain ⟨o, ho, rfl⟩ := List.mem_map.mp ha
    exact h o ho
  simpa [storedSum] using hsum

end Stored

section Sound

variable {crates : Crates} {es : List UTXOSet.Event} {set : UTXOSet} {tx : Transaction}

/-- What the check accepts has passed the checks that do not look at the set. -/
theorem checked_of_passes (hr : UTXORun crates.hexDecode es set) (hp : Passes crates set tx) :
    Checked crates tx := by
  obtain ⟨hv, hinputs, -⟩ := hp
  refine ⟨hv, fun input hi ↦ ?_, fun input hi ↦ ?_⟩
  · obtain ⟨utxo, hg, -⟩ := hinputs input hi
    have hkey := outpointKey_inj.mp (UTXOSet.selfKeyed_of_run hr _ _ hg)
    rw [← hkey.1]
    exact (UTXOSet.storable_of_run hr hg).2
  · obtain ⟨utxo, -, -, -, -, -, hs⟩ := hinputs input hi
    exact hs

/-- The amounts behind accepted inputs are positive and at most the supply. -/
theorem storedAmount_of_passes (hp : Passes crates set tx) :
    ∀ o ∈ outpoints tx, 1 ≤ storedAmount set o ∧ storedAmount set o ≤ maxSupply.toNat := by
  intro o ho
  obtain ⟨input, hi, rfl⟩ := List.mem_map.mp ho
  obtain ⟨utxo, hg, -, h0, hm, -⟩ := hp.2.1 input hi
  rw [storedAmount, hg, Option.elim_some]
  exact ⟨Nat.one_le_iff_ne_zero.mpr fun h ↦ h0 (BitVec.eq_of_toNat_eq h), BitVec.le_def.mp hm⟩

/-- The coins of an accepted transaction cover it, if it is one of those that never come up
short. -/
theorem covered_of_neverShort (hr : UTXORun crates.hexDecode es set) (hp : Passes crates set tx)
    (hn : NeverShort crates tx) : Covered set tx := by
  have hamounts := storedAmount_of_passes hp
  have hneeded := hp.2.2
  rw [toNat_totalNeeded] at hneeded
  rcases hn with ⟨hnodup, hsum⟩ | hn | hn | hn
  · rw [Nat.mod_eq_of_lt (Nat.lt_of_le_of_lt (Nat.le_add_right _ _) hsum)] at hneeded
    rw [Covered, hnodup.dedup]
    unfold maxAmount at hneeded
    omega
  · exact absurd (checked_of_passes hr hp) hn
  · have hle := storedSum_le fun o ho ↦ (hamounts o ho).2
    rw [outpoints, List.length_map] at hle
    exact absurd (hneeded.trans hle) (Nat.not_le.mpr (lt_min hn.2 hn.1))
  · have hle := length_le_storedSum fun o ho ↦ (hamounts o (List.mem_dedup.mp ho)).1
    exact hn.trans hle

/-! ### Coins that do not -/

/-- A coin of the sender for an outpoint. -/
def Transaction.coin (tx : Transaction) (amount : Nat) (o : String × U32) : UTXOEntry where
  txHash := o.1
  outputIndex := o.2
  recipient := tx.sender
  amount := .ofNat 128 amount
  blockHeight := 0
  spent := false

/-- Amounts that can be the amounts of coins. -/
def CoinAmounts (amount : String × U32 → Nat) : Prop :=
  ∀ o, 1 ≤ amount o ∧ amount o ≤ maxSupply.toNat

theorem CoinAmounts.toNat_amount_coin {amount : String × U32 → Nat} (ha : CoinAmounts amount)
    (tx : Transaction) (o : String × U32) : (tx.coin (amount o) o).amount.toNat = amount o := by
  have hle := (ha o).2
  rw [show maxSupply.toNat = 2_100_000_000_000_000 from rfl] at hle
  exact Nat.mod_eq_of_lt (by omega)

theorem CoinAmounts.amount_coin_ne_zero {amount : String × U32 → Nat} (ha : CoinAmounts amount)
    (tx : Transaction) (o : String × U32) : (tx.coin (amount o) o).amount ≠ 0 := by
  intro h0
  have hpos := (ha o).1
  rw [← ha.toNat_amount_coin tx o, h0] at hpos
  exact absurd hpos (by decide)

/-- For the outpoints of a checked transaction, coins of any amounts can be added. -/
theorem exists_run_of_amounts (hc : Checked crates tx) {amount : String × U32 → Nat}
    (ha : CoinAmounts amount) :
    ∃ es set, UTXORun crates.hexDecode es set ∧
      ∀ o ∈ outpoints tx, set.getUtxo o.1 o.2 = some (tx.coin (amount o) o) := by
  let coins := (outpoints tx).dedup.map fun o ↦ tx.coin (amount o) o
  have hstorable : ∀ utxo ∈ coins, Storable crates.hexDecode utxo := by
    intro utxo hu
    obtain ⟨o, ho, rfl⟩ := List.mem_map.mp hu
    obtain ⟨input, hi, rfl⟩ := List.mem_map.mp (List.mem_dedup.mp ho)
    exact ⟨ha.amount_coin_ne_zero tx _, hc.hashes input hi⟩
  have hkeys : (coins.map UTXOSet.keyOf).Nodup := by
    rw [List.map_map]
    refine (List.nodup_dedup _).map fun o o' h ↦ ?_
    exact Prod.ext_iff.mpr (outpointKey_inj.mp h)
  obtain ⟨es, set, hrun, hget⟩ := UTXOSet.exists_run_of_storable hstorable hkeys
  exact ⟨es, set, hrun, fun o ho ↦
    hget (tx.coin (amount o) o) (List.mem_map_of_mem (List.mem_dedup.mpr ho))⟩

/-- Any other transaction has amounts for its outpoints with which the check does not see
that they come up short. -/
theorem exists_short_amounts (hn : ¬NeverShort crates tx) :
    ∃ amount, CoinAmounts amount ∧
      min (amountSum tx.outputs % 2 ^ 128 + tx.fee.toNat) maxAmount ≤
        ((outpoints tx).map amount).sum ∧
      ((outpoints tx).dedup.map amount).sum < amountSum tx.outputs + tx.fee.toNat := by
  simp only [NeverShort, TooFewInputs, not_or, not_not, Nat.not_le, Nat.not_lt, not_and] at hn
  obtain ⟨hwrap, -, hfew, hmany⟩ := hn
  have hlimit : 1 ≤ maxSupply.toNat := by decide
  by_cases hfull : (outpoints tx).dedup.length * maxSupply.toNat <
    amountSum tx.outputs + tx.fee.toNat
  · -- The largest coins are not enough.
    refine ⟨fun _ ↦ maxSupply.toNat, fun _ ↦ ⟨hlimit, le_rfl⟩, ?_, ?_⟩
    · rw [List.map_const', List.sum_replicate_nat, outpoints, List.length_map, min_le_iff,
        or_comm]
      exact (Nat.lt_or_ge _ _).symm.imp_right hfew
    · rw [List.map_const', List.sum_replicate_nat]
      exact hfull
  · -- The distinct outpoints hold one unit too little.
    obtain ⟨amount, ha, hsum⟩ := exists_shares (List.nodup_dedup (outpoints tx)) hlimit
      (Nat.le_sub_one_of_lt hmany) (show amountSum tx.outputs + tx.fee.toNat - 1 ≤ _ by omega)
    refine ⟨amount, ha, ?_, by omega⟩
    have hmod := Nat.mod_le (amountSum tx.outputs) (2 ^ 128)
    by_cases hnodup : (outpoints tx).Nodup
    · have hge := hwrap hnodup
      rw [hnodup.dedup] at hsum
      unfold maxAmount
      omega
    · have hlt := sum_dedup_lt amount (fun o _ ↦ (ha o).1) hnodup
      omega

/-- A transaction that can come up short is accepted somewhere without the coins for it. -/
theorem exists_not_covered (hn : ¬NeverShort crates tx) :
    ∃ es set, UTXORun crates.hexDecode es set ∧ Passes crates set tx ∧ ¬Covered set tx := by
  have hc : Checked crates tx := not_not.mp (not_or.mp (not_or.mp hn).2).1
  obtain ⟨amount, ha, hcharge, hshort⟩ := exists_short_amounts hn
  obtain ⟨es, set, hrun, hget⟩ := exists_run_of_amounts hc ha
  have hstored : ∀ o ∈ outpoints tx, storedAmount set o = amount o := by
    intro o ho
    rw [storedAmount, hget o ho, Option.elim_some, ha.toNat_amount_coin]
  refine ⟨es, set, hrun, ⟨hc.valid, fun input hi ↦ ?_, ?_⟩, ?_⟩
  · have ho : (input.prevTxHash, input.outputIndex) ∈ outpoints tx := List.mem_map_of_mem hi
    have hget := hget (input.prevTxHash, input.outputIndex) ho
    refine ⟨_, hget, rfl, ha.amount_coin_ne_zero tx _, ?_, rfl, hc.signatures input hi⟩
    rw [BitVec.le_def, ha.toNat_amount_coin]
    exact (ha _).2
  · rw [toNat_totalNeeded, storedSum, List.map_congr_left hstored]
    exact hcharge
  · rw [Covered, storedSum,
      List.map_congr_left fun o ho ↦ hstored o (List.mem_dedup.mp ho)]
    exact Nat.not_le.mpr hshort

end Sound

/-- What the check accepts in reachable sets spends unspent coins of the sender that cover the
outputs and the fee, for exactly the transactions that never come up short. -/
theorem validation_sound_iff (crates : Crates) (tx : Transaction) :
    (∀ es set, UTXORun crates.hexDecode es set → tx.validateWithUtxoSet crates set = .ok () →
        SpendsOwnCoins set tx ∧ Covered set tx) ↔
      NeverShort crates tx := by
  constructor
  · intro hsound
    by_contra hn
    obtain ⟨es, set, hrun, hp, hcovered⟩ := exists_not_covered hn
    exact hcovered (hsound es set hrun (validateWithUtxoSet_ok_iff.mpr hp)).2
  · intro hn es set hrun hok
    have hp := validateWithUtxoSet_ok_iff.mp hok
    exact ⟨spendsOwnCoins_of_passes (UTXOSet.selfKeyed_of_run hrun) hp.2.1,
      covered_of_neverShort hrun hp hn⟩

/-- A payment of 150 by `alice` that names her coin of 100 twice. -/
def doubledInput : Transaction :=
  { aliceTransaction [⟨"bob", 150⟩] with inputs := [aliceInput, aliceInput] }

/-- The coin of `alice` is found under her input. -/
theorem inputPasses_aliceInput {tx : Transaction} (h : tx.sender = "alice") :
    InputPasses .linked UTXOSet.withAliceUtxo tx aliceInput := by
  have hg : UTXOSet.withAliceUtxo.getUtxo aliceInput.prevTxHash aliceInput.outputIndex =
      some aliceUtxo := UTXOSet.getUtxo_addUtxo storable_aliceUtxo
  exact ⟨aliceUtxo, hg, rfl, by decide, by decide, h.symm, aliceInput_signature⟩

private theorem storedSum_aliceUtxo (os : List (String × U32))
    (h : ∀ o ∈ os, o = (aliceUtxo.txHash, 0)) :
    storedSum UTXOSet.withAliceUtxo os = 100 * os.length := by
  have hg : UTXOSet.withAliceUtxo.getUtxo aliceUtxo.txHash 0 = some aliceUtxo :=
    UTXOSet.getUtxo_addUtxo storable_aliceUtxo
  have ha : storedAmount UTXOSet.withAliceUtxo (aliceUtxo.txHash, 0) = 100 := by
    rw [storedAmount, hg]
    rfl
  induction os with
  | nil => rfl
  | cons o os ih =>
    obtain ⟨ho, hos⟩ := List.forall_mem_cons.mp h
    have hi := ih hos
    unfold storedSum at hi ⊢
    rw [List.map_cons, List.sum_cons, hi, ho, ha, List.length_cons]
    omega

/-- One coin of 100 is accepted for a payment of 150 with a fee of 10. -/
theorem doubled_input_accepted :
    UTXORun Crates.linked.hexDecode [⟨.addUtxo aliceUtxo, .ok ()⟩] UTXOSet.withAliceUtxo ∧
      doubledInput.validateWithUtxoSet .linked UTXOSet.withAliceUtxo = .ok () ∧
      storedSum UTXOSet.withAliceUtxo (outpoints doubledInput).dedup = 100 ∧
      ¬Covered UTXOSet.withAliceUtxo doubledInput := by
  have hi : ∀ input ∈ doubledInput.inputs, input = aliceInput := by simp [doubledInput]
  have hos : outpoints doubledInput = [(aliceUtxo.txHash, 0), (aliceUtxo.txHash, 0)] := rfl
  have hd : (outpoints doubledInput).dedup = [(aliceUtxo.txHash, 0)] := by simp [hos]
  have hsum : storedSum UTXOSet.withAliceUtxo (outpoints doubledInput).dedup = 100 := by
    rw [hd, storedSum_aliceUtxo _ (by simp)]
    rfl
  have htotal : doubledInput.totalInput .linked = 300_000_000 := by
    rw [totalInput_of_aliceInput hi (show 2 ≤ 4 by decide)]
    rfl
  have hv : doubledInput.validate .linked = .ok () := by
    refine Transaction.validate_eq_ok (show "alice".isEmpty = false by decide) rfl rfl ?_ ?_
    · intro output ho
      cases List.mem_singleton.mp ho
      decide
    · rw [htotal]
      decide
  refine ⟨UTXOSet.withAliceUtxo_run, validateWithUtxoSet_ok_iff.mpr ⟨hv, ?_, ?_⟩, hsum, ?_⟩
  · intro input h
    rw [hi input h]
    exact inputPasses_aliceInput rfl
  · rw [storedSum_aliceUtxo _ (by simp [hos])]
    decide
  · rw [Covered, hsum]
    decide

/-- With one outpoint and small amounts, a payment of 60 with a fee of 10 is covered wherever
it is accepted. -/
theorem validation_sound_iff_sixty :
    ∀ es set, UTXORun Crates.linked.hexDecode es set →
      (aliceTransaction [⟨"bob", 60⟩]).validateWithUtxoSet .linked set = .ok () →
        SpendsOwnCoins set (aliceTransaction [⟨"bob", 60⟩]) ∧
          Covered set (aliceTransaction [⟨"bob", 60⟩]) :=
  (validation_sound_iff .linked (aliceTransaction [⟨"bob", 60⟩])).mpr
    (.inl ⟨List.nodup_singleton _, by decide⟩)

end SilverPow.Ledger
