import Mathlib.Data.List.Basic
import SilverPow.Base.Hex
import SilverPow.Base.Run
import SilverPow.Base.SuffixCode
import SilverPow.Base.Table

/-!
# The UTXO set

`src/transaction_engine.rs:12–164`. Entries are stored under the text
`tx_hash:output_index`, with an index from addresses to the keys of their entries. The
read-write locks serialize the calls, so each call is one function on the set. A run is a
sequence of calls on a new set, each with the result that it returned.
-/

namespace SilverPow.Ledger

open SilverPow.Base

/-- `UTXOEntry`, `src/transaction_engine.rs:14–27`. -/
structure UTXOEntry where
  txHash : String
  outputIndex : U32
  recipient : String
  amount : U128
  blockHeight : U64
  spent : Bool
  deriving DecidableEq

/-- `UTXOSet`, `src/transaction_engine.rs:32–37`. -/
structure UTXOSet where
  utxos : Table String UTXOEntry
  addressUtxos : Table String (List String)

/-- The key `format!("\x7b\x7d:\x7b\x7d", tx_hash, output_index)` of an outpoint. -/
def outpointKey (txHash : String) (outputIndex : U32) : String :=
  s!"{txHash}:{outputIndex.toNat}"

namespace UTXOSet

/-- `UTXOSet::new`, `src/transaction_engine.rs:41–46`. -/
def new : UTXOSet := ⟨∅, ∅⟩

/-- `UTXOSet::add_utxo`, `src/transaction_engine.rs:49–78`. An entry already stored under
the key is replaced, and the key is pushed to the recipient's index again. -/
def addUtxo (hexDecode : String → Option (List U8)) (set : UTXOSet) (utxo : UTXOEntry) :
    Except String Unit × UTXOSet :=
  let key := outpointKey utxo.txHash utxo.outputIndex
  if utxo.amount = 0 then (.error "UTXO amount must be greater than zero", set)
  else if utxo.txHash.utf8ByteSize ≠ 128 then (.error "Invalid transaction hash length", set)
  else if (hexDecode utxo.txHash).isNone then (.error "Invalid transaction hash format", set)
  else
    let (keys, index) := Table.entryOrInsert set.addressUtxos utxo.recipient []
    (.ok (), ⟨set.utxos.insert key utxo, index.insert utxo.recipient (keys ++ [key])⟩)

/-- `UTXOSet::get_utxo`, `src/transaction_engine.rs:81–89`; it never fails. -/
def getUtxo (set : UTXOSet) (txHash : String) (outputIndex : U32) : Option UTXOEntry :=
  set.utxos.lookup (outpointKey txHash outputIndex)

/-- `UTXOSet::spend_utxo`, `src/transaction_engine.rs:92–106`. -/
def spendUtxo (set : UTXOSet) (txHash : String) (outputIndex : U32) :
    Except String Unit × UTXOSet :=
  let key := outpointKey txHash outputIndex
  match set.utxos.lookup key with
  | some utxo =>
    if utxo.spent then (.error s!"UTXO already spent: {key}", set)
    else (.ok (), { set with utxos := set.utxos.insert key { utxo with spent := true } })
  | none => (.error s!"UTXO not found: {key}", set)

/-- `UTXOSet::get_address_utxos`, `src/transaction_engine.rs:109–126`: the listed keys are
looked up in order, and the entries found unspent are returned. -/
def getAddressUtxos (set : UTXOSet) (address : String) : List UTXOEntry :=
  match set.addressUtxos.lookup address with
  | some keys => keys.filterMap fun key ↦ (set.utxos.lookup key).filter (!·.spent)
  | none => []

/-- `UTXOSet::get_address_balance`, `src/transaction_engine.rs:129–132`; the sum wraps. -/
def getAddressBalance (set : UTXOSet) (address : String) : U128 :=
  ((set.getAddressUtxos address).map (·.amount)).sum

/-- `UTXOSet::validate_utxo`, `src/transaction_engine.rs:135–146`. -/
def validateUtxo (set : UTXOSet) (txHash : String) (outputIndex : U32) : Except String Unit :=
  match set.getUtxo txHash outputIndex with
  | some utxo =>
    if utxo.spent then .error s!"UTXO already spent: {txHash}:{outputIndex.toNat}" else .ok ()
  | none => .error s!"UTXO not found: {txHash}:{outputIndex.toNat}"

/-! ### Calls -/

/-- A call that changes the set. -/
inductive Call where
  | addUtxo (utxo : UTXOEntry)
  | spendUtxo (txHash : String) (outputIndex : U32)

/-- A call and what it returned. -/
structure Event where
  call : Call
  result : Except String Unit

/-- The result of a call, and the set after it. -/
def perform (hexDecode : String → Option (List U8)) (set : UTXOSet) :
    Call → Except String Unit × UTXOSet
  | .addUtxo utxo => set.addUtxo hexDecode utxo
  | .spendUtxo txHash outputIndex => set.spendUtxo txHash outputIndex

/-- The set after a call. -/
def after (hexDecode : String → Option (List U8)) (set : UTXOSet) (call : Call) : UTXOSet :=
  (set.perform hexDecode call).2

/-- One step of a run: a call with its result. -/
def Step (hexDecode : String → Option (List U8)) (set : UTXOSet) (e : Event)
    (set' : UTXOSet) : Prop :=
  set.perform hexDecode e.call = (e.result, set')

end UTXOSet

/-- The runs of `add_utxo` and `spend_utxo` from a new set. -/
abbrev UTXORun (hexDecode : String → Option (List U8)) : List UTXOSet.Event → UTXOSet → Prop :=
  Run (UTXOSet.Step hexDecode) .new

/-- What `add_utxo` checks of an entry. -/
def Storable (hexDecode : String → Option (List U8)) (utxo : UTXOEntry) : Prop :=
  utxo.amount ≠ 0 ∧ utxo.txHash.utf8ByteSize = 128 ∧ (hexDecode utxo.txHash).isSome

private theorem toList_outpointKey (txHash : String) (outputIndex : U32) :
    (outpointKey txHash outputIndex).toList =
      txHash.toList ++ ':' :: Nat.toDigits 10 outputIndex.toNat := by
  simp [outpointKey, toString]

/-- Different outpoints have different keys: the index has no colon. -/
theorem outpointKey_inj {h₁ h₂ : String} {i₁ i₂ : U32} :
    outpointKey h₁ i₁ = outpointKey h₂ i₂ ↔ h₁ = h₂ ∧ i₁ = i₂ := by
  constructor
  · intro h
    have hl := congrArg String.toList h
    rw [toList_outpointKey, toList_outpointKey] at hl
    obtain ⟨hh, hi⟩ := SuffixCode.digits (by rfl) hl
    exact ⟨String.toList_inj.mp hh, BitVec.eq_of_toNat_eq hi⟩
  · rintro ⟨rfl, rfl⟩
    rfl

namespace UTXOSet

/-- The key of the outpoint that an entry is for. -/
abbrev keyOf (utxo : UTXOEntry) : String := outpointKey utxo.txHash utxo.outputIndex

/-- The keys that the index lists for an address. -/
def listedKeys (set : UTXOSet) (address : String) : List String :=
  (set.addressUtxos.lookup address).getD []

/-- What a call with its result can do to the set. -/
inductive Effect (hexDecode : String → Option (List U8)) (set : UTXOSet) :
    Event → UTXOSet → Prop
  | refused {utxo : UTXOEntry} {e : String} :
      ¬Storable hexDecode utxo → Effect hexDecode set ⟨.addUtxo utxo, .error e⟩ set
  | stored {utxo : UTXOEntry} {set' : UTXOSet} :
      Storable hexDecode utxo → set'.utxos = set.utxos.insert (keyOf utxo) utxo →
      (∀ a, set'.listedKeys a = if a = utxo.recipient then set.listedKeys a ++ [keyOf utxo]
        else set.listedKeys a) →
      Effect hexDecode set ⟨.addUtxo utxo, .ok ()⟩ set'
  | unspendable {txHash : String} {outputIndex : U32} {e : String} :
      (∀ utxo, set.getUtxo txHash outputIndex = some utxo → utxo.spent = true) →
      Effect hexDecode set ⟨.spendUtxo txHash outputIndex, .error e⟩ set
  | spent {txHash : String} {outputIndex : U32} {utxo : UTXOEntry} {set' : UTXOSet} :
      set.getUtxo txHash outputIndex = some utxo → utxo.spent = false →
      set'.utxos = set.utxos.insert (outpointKey txHash outputIndex)
        { utxo with spent := true } →
      (∀ a, set'.listedKeys a = set.listedKeys a) →
      Effect hexDecode set ⟨.spendUtxo txHash outputIndex, .ok ()⟩ set'

/-- The step relation is a function of the call. -/
theorem step_deterministic {hexDecode : String → Option (List U8)} (set : UTXOSet) (e : Event)
    (set' : UTXOSet) (h : Step hexDecode set e set') : set' = set.after hexDecode e.call :=
  (congrArg Prod.snd h).symm

section Effects

variable {hexDecode : String → Option (List U8)} {set set' : UTXOSet}

private theorem listedKeys_push (utxos : Table String UTXOEntry) (address key a : String) :
    listedKeys ⟨utxos, (Table.entryOrInsert set.addressUtxos address []).2.insert address
      ((Table.entryOrInsert set.addressUtxos address []).1 ++ [key])⟩ a =
      if a = address then set.listedKeys a ++ [key] else set.listedKeys a := by
  unfold listedKeys
  split
  · next ha =>
    subst ha
    rw [Finmap.lookup_insert, Option.getD_some, Table.entryOrInsert_fst]
  · next ha =>
    rw [Finmap.lookup_insert_of_ne _ ha, Table.lookup_entryOrInsert_of_ne _ ha]

private theorem effect_addUtxo (utxo : UTXOEntry) :
    Effect hexDecode set ⟨.addUtxo utxo, (set.addUtxo hexDecode utxo).1⟩
      (set.addUtxo hexDecode utxo).2 := by
  simp only [addUtxo]
  split
  · next hz => exact .refused fun hs ↦ hs.1 hz
  · next hz =>
    split
    · next hl => exact .refused fun hs ↦ hl hs.2.1
    · next hl =>
      split
      · next hx => exact .refused fun hs ↦ by simp [Option.isNone_iff_eq_none.mp hx, Storable] at hs
      · next hx =>
        exact .stored ⟨hz, not_not.mp hl, by simpa [Option.isSome_iff_ne_none] using hx⟩ rfl
          (listedKeys_push _ _ _)

private theorem effect_spendUtxo (txHash : String) (outputIndex : U32) :
    Effect hexDecode set ⟨.spendUtxo txHash outputIndex, (set.spendUtxo txHash outputIndex).1⟩
      (set.spendUtxo txHash outputIndex).2 := by
  simp only [spendUtxo]
  split
  · next utxo hl =>
    split
    · next h =>
      refine .unspendable fun u hu ↦ ?_
      cases hl.symm.trans hu
      exact h
    · next h => exact .spent hl (by simpa using h) rfl fun _ ↦ rfl
  · next hl =>
    refine .unspendable fun u hu ↦ ?_
    cases hl.symm.trans hu

/-- A storable entry is stored under its key, and the key is listed. -/
theorem addUtxo_of_storable {utxo : UTXOEntry} (h : Storable hexDecode utxo) :
    set.addUtxo hexDecode utxo = (.ok (), ⟨set.utxos.insert (keyOf utxo) utxo,
      (Table.entryOrInsert set.addressUtxos utxo.recipient []).2.insert utxo.recipient
        ((Table.entryOrInsert set.addressUtxos utxo.recipient []).1 ++ [keyOf utxo])⟩) := by
  have hx : (hexDecode utxo.txHash).isNone = false := by
    rw [Option.isNone_eq_false_iff, h.2.2]
  simp only [addUtxo, if_neg h.1, h.2.1, ne_eq, not_true_eq_false, if_false, hx,
    Bool.false_eq_true]

/-- Adding a storable entry succeeds. -/
theorem step_addUtxo {utxo : UTXOEntry} (h : Storable hexDecode utxo) :
    Step hexDecode set ⟨.addUtxo utxo, .ok ()⟩ (set.after hexDecode (.addUtxo utxo)) := by
  rw [Step, after, perform, addUtxo_of_storable h]

/-- Every step has one of the four effects. -/
theorem effect_of_step {e : Event} (h : Step hexDecode set e set') :
    Effect hexDecode set e set' := by
  obtain ⟨call, result⟩ := e
  cases call with
  | addUtxo utxo =>
    have h : set.addUtxo hexDecode utxo = (result, set') := h
    have he : Effect hexDecode set ⟨.addUtxo utxo, (set.addUtxo hexDecode utxo).1⟩
        (set.addUtxo hexDecode utxo).2 := effect_addUtxo utxo
    rwa [h] at he
  | spendUtxo txHash outputIndex =>
    have h : set.spendUtxo txHash outputIndex = (result, set') := h
    have he : Effect hexDecode set
        ⟨.spendUtxo txHash outputIndex, (set.spendUtxo txHash outputIndex).1⟩
        (set.spendUtxo txHash outputIndex).2 := effect_spendUtxo txHash outputIndex
    rwa [h] at he

/-- A storable entry can be looked up after it was added. -/
theorem getUtxo_addUtxo {utxo : UTXOEntry} (h : Storable hexDecode utxo) :
    (set.after hexDecode (.addUtxo utxo)).getUtxo utxo.txHash utxo.outputIndex = some utxo := by
  have hs : Step hexDecode set ⟨.addUtxo utxo, .ok ()⟩ (set.after hexDecode (.addUtxo utxo)) :=
    step_addUtxo h
  cases effect_of_step hs with
  | stored _ hu _ => rw [getUtxo, hu, Finmap.lookup_insert]

/-- An unspent entry is spent. -/
theorem step_spendUtxo {txHash : String} {outputIndex : U32} {utxo : UTXOEntry}
    (hg : set.getUtxo txHash outputIndex = some utxo) (hf : utxo.spent = false) :
    Step hexDecode set ⟨.spendUtxo txHash outputIndex, .ok ()⟩
      (set.after hexDecode (.spendUtxo txHash outputIndex)) := by
  have hl : set.utxos.lookup (outpointKey txHash outputIndex) = some utxo := hg
  simp only [Step, after, perform, spendUtxo, hl, hf, Bool.false_eq_true, if_false]

end Effects

/-- Every entry is stored under the key of its own outpoint. -/
def SelfKeyed (set : UTXOSet) : Prop :=
  ∀ key utxo, set.utxos.lookup key = some utxo → keyOf utxo = key

/-- Every call keeps the entries under their own keys. -/
theorem selfKeyed_step {hexDecode : String → Option (List U8)} {set set' : UTXOSet}
    (h : SelfKeyed set) {e : Event} (hs : Step hexDecode set e set') : SelfKeyed set' := by
  unfold SelfKeyed
  cases effect_of_step hs with
  | refused => exact h
  | stored _ hu _ =>
    rw [hu]
    exact Table.forall_lookup_insert rfl fun key utxo _ hl ↦ h key utxo hl
  | unspendable => exact h
  | spent hl _ hu _ =>
    rw [hu]
    have hk := h _ _ hl
    exact Table.forall_lookup_insert hk fun key utxo _ hl ↦ h key utxo hl

/-- In every reachable set the entries are stored under their own keys. -/
theorem selfKeyed_of_run {hexDecode : String → Option (List U8)} {es : List Event}
    {set : UTXOSet} (h : UTXORun hexDecode es set) : SelfKeyed set := by
  refine h.invariant SelfKeyed ?_ fun s e s' hi hs ↦ selfKeyed_step hi hs
  intro key utxo hl
  simp [new] at hl

/-- Every call keeps what `add_utxo` checks of the entries. -/
theorem storable_step {hexDecode : String → Option (List U8)} {set set' : UTXOSet}
    (h : ∀ key utxo, set.utxos.lookup key = some utxo → Storable hexDecode utxo) {e : Event}
    (hs : Step hexDecode set e set') :
    ∀ key utxo, set'.utxos.lookup key = some utxo → Storable hexDecode utxo := by
  cases effect_of_step hs with
  | refused => exact h
  | stored hstorable hu _ =>
    rw [hu]
    exact Table.forall_lookup_insert hstorable fun key utxo _ hl ↦ h key utxo hl
  | unspendable => exact h
  | spent hl _ hu _ =>
    rw [hu]
    have hstorable := h _ _ hl
    exact Table.forall_lookup_insert hstorable fun key utxo _ hl ↦ h key utxo hl

/-- Every stored entry has passed the checks of `add_utxo`. -/
theorem storable_of_run {hexDecode : String → Option (List U8)} {es : List Event} {set : UTXOSet}
    (h : UTXORun hexDecode es set) {key : String} {utxo : UTXOEntry}
    (hl : set.utxos.lookup key = some utxo) : Storable hexDecode utxo := by
  refine h.invariant
    (fun set ↦ ∀ key utxo, set.utxos.lookup key = some utxo → Storable hexDecode utxo) ?_
    (fun s e s' hi hs ↦ storable_step hi hs) key utxo hl
  intro key utxo hl
  simp [new] at hl

/-- Entries of different outpoints can all be in one reachable set. -/
theorem exists_run_of_storable {hexDecode : String → Option (List U8)} {utxos : List UTXOEntry}
    (hs : ∀ utxo ∈ utxos, Storable hexDecode utxo) (hk : (utxos.map keyOf).Nodup) :
    ∃ es set, UTXORun hexDecode es set ∧
      ∀ utxo ∈ utxos, set.getUtxo utxo.txHash utxo.outputIndex = some utxo := by
  induction utxos with
  | nil => exact ⟨[], .new, .nil, List.forall_mem_nil _⟩
  | cons utxo utxos ih =>
    rw [List.forall_mem_cons] at hs
    rw [List.map_cons, List.nodup_cons] at hk
    obtain ⟨es, set, hrun, hget⟩ := ih hs.2 hk.2
    refine ⟨_, _, hrun.snoc (step_addUtxo hs.1), ?_⟩
    rw [List.forall_mem_cons]
    refine ⟨getUtxo_addUtxo hs.1, fun other ho ↦ ?_⟩
    have hne : keyOf other ≠ keyOf utxo := fun he ↦ hk.1 (he ▸ List.mem_map_of_mem ho)
    have hstep : Step hexDecode set ⟨.addUtxo utxo, .ok ()⟩ (set.after hexDecode (.addUtxo utxo)) :=
      step_addUtxo hs.1
    cases effect_of_step hstep with
    | stored _ hu _ =>
      rw [getUtxo, hu, Finmap.lookup_insert_of_ne _ hne]
      exact hget other ho

end UTXOSet

/-- A coin of the address `alice`. -/
def aliceUtxo : UTXOEntry where
  txHash := String.ofList (List.replicate 128 'a')
  outputIndex := 0
  recipient := "alice"
  amount := 100
  blockHeight := 1
  spent := false

/-- The coin passes the checks of `add_utxo`. -/
theorem storable_aliceUtxo : Storable Hex.base16.decode aliceUtxo :=
  ⟨by decide, by decide +kernel,
    Hex.isSome_decode_replicate (show Hex.digitValue 'a' = some 10 from rfl)⟩

/-- The set after one coin was added. -/
def UTXOSet.withAliceUtxo : UTXOSet := UTXOSet.new.after Hex.base16.decode (.addUtxo aliceUtxo)

/-- Adding the coin is a run. -/
theorem UTXOSet.withAliceUtxo_run :
    UTXORun Hex.base16.decode [⟨.addUtxo aliceUtxo, .ok ()⟩] withAliceUtxo :=
  .snoc .nil (UTXOSet.step_addUtxo storable_aliceUtxo)

end SilverPow.Ledger
