import SilverPow.Base.Bytes
import SilverPow.Base.SuffixCode
import SilverPow.Ledger.Validation

/-!
# What a transaction's hash is taken of

`Transaction::new`, `src/transaction_engine.rs:219–264`, hashes the text
`format!("\x7b\x7d\x7b:?\x7d\x7b:?\x7d\x7b\x7d", sender, inputs, outputs, fee)`. The sender
stands in front of it with nothing behind it that ends it, and the texts of the fields may
imitate what is around them. Read from the right end, though, every part starts at a known
place: the fee behind the last bracket, each number behind a blank, and each text behind the
last quote that no backslash is before.
-/

namespace SilverPow.Ledger

open SilverPow.Base

/-- The escape that `Debug` applies to the text of a `str`: different texts stay different,
and no quote or backslash is left bare. -/
structure EscapeLaw (escape : String → String) : Prop where
  injective : Function.Injective escape
  escaped (s : String) : Escaped '"' '\\' (escape s).toList

/-- `Debug` of a `str`. -/
def debugStr (escape : String → String) (s : String) : String := "\"" ++ escape s ++ "\""

/-- The derived `Debug` of a `TransactionInput`. -/
def TransactionInput.debug (escape : String → String) (input : TransactionInput) : String :=
  "TransactionInput \x7b prev_tx_hash: " ++ debugStr escape input.prevTxHash ++
    ", output_index: " ++ toString input.outputIndex.toNat ++
    ", signature: " ++ debugStr escape input.signature ++ " \x7d"

/-- The derived `Debug` of a `TransactionOutput`. -/
def TransactionOutput.debug (escape : String → String) (output : TransactionOutput) : String :=
  "TransactionOutput \x7b recipient: " ++ debugStr escape output.recipient ++
    ", amount: " ++ toString output.amount.toNat ++ " \x7d"

/-- `Debug` of a `Vec`. -/
def debugVec {α : Type} (debug : α → String) (items : List α) : String :=
  "[" ++ ", ".intercalate (items.map debug) ++ "]"

namespace Transaction

/-- `tx_data`, `src/transaction_engine.rs:249`. -/
def txData (escape : String → String) (sender : String) (inputs : List TransactionInput)
    (outputs : List TransactionOutput) (fee : U128) : String :=
  sender ++ debugVec (TransactionInput.debug escape) inputs ++
    debugVec (TransactionOutput.debug escape) outputs ++ toString fee.toNat

/-- `Transaction::new`, `src/transaction_engine.rs:219–264`; `sha512` and `hexEncode` are the
crates' functions and `now` is the clock. -/
def new (escape : String → String) (sha512 : Bytes → Bytes) (hexEncode : Bytes → String)
    (now : U64) (sender : String) (inputs : List TransactionInput)
    (outputs : List TransactionOutput) (fee : U128) : Except String Transaction :=
  if inputs = [] then .error "Transaction must have at least one input"
  else if outputs = [] then .error "Transaction must have at least one output"
  else if outputs.any (·.amount = 0) then .error "Output amount must be greater than zero"
  else
    .ok
      { hash := hexEncode (sha512 (utf8 (txData escape sender inputs outputs fee)))
        sender := sender
        inputs := inputs
        outputs := outputs
        fee := fee
        timestamp := now
        status := .pending }

end Transaction

section Debug

variable {escape : String → String}

/-- A number starts behind the last mark that is no digit. -/
theorem suffixCode_word {w : Nat} {mark : Char} (hm : mark.isDigit = false) :
    SuffixCode fun x : BitVec w ↦ mark :: Nat.toDigits 10 x.toNat :=
  (SuffixCode.digits hm).comp fun _ _ ↦ BitVec.eq_of_toNat_eq

/-- A text in quotes starts where its opening quote does. -/
theorem suffixCode_debugStr (h : EscapeLaw escape) :
    SuffixCode fun s : String ↦ ' ' :: '"' :: ((escape s).toList ++ ['"']) := by
  apply SuffixCode.quoted (by decide) (by decide) _ h.escaped
  intro s t hst
  exact h.injective (String.toList_inj.mp hst)

theorem toList_debugStr (s : String) :
    (debugStr escape s).toList = '"' :: ((escape s).toList ++ ['"']) := by
  simp [debugStr]

/-- The text of an input up to the brace that closes it. -/
def inputBody (escape : String → String) (input : TransactionInput) : List Char :=
  "TransactionInput \x7b prev_tx_hash:".toList ++
    ((' ' :: '"' :: ((escape input.prevTxHash).toList ++ ['"'])) ++
      (", output_index:".toList ++ (' ' :: Nat.toDigits 10 input.outputIndex.toNat) ++
        (", signature:".toList ++ (' ' :: '"' :: ((escape input.signature).toList ++ ['"'])) ++
          [' '])))

theorem TransactionInput.toList_debug (input : TransactionInput) :
    (input.debug escape).toList = inputBody escape input ++ ['\x7d'] := by
  unfold debug inputBody
  simp [toList_debugStr]

theorem suffixCode_inputBody (h : EscapeLaw escape) :
    SuffixCode fun input ↦ inputBody escape input ++ ['\x7d'] := by
  have hindex : SuffixCode fun i : U32 ↦ ' ' :: Nat.toDigits 10 i.toNat := suffixCode_word rfl
  have hsignature := ((suffixCode_debugStr h).text_append ", signature:".toList).append_text [' ']
  have hfields := (suffixCode_debugStr h).append
    ((hindex.text_append ", output_index:".toList).append hsignature)
  have htext := hfields.text_append "TransactionInput \x7b prev_tx_hash:".toList
  apply (htext.append_text ['\x7d']).comp (f := fun input : TransactionInput ↦
    (input.prevTxHash, input.outputIndex, input.signature))
  intro input input' heq
  cases input
  cases input'
  simpa using heq

/-- The text of an output up to the brace that closes it. -/
def outputBody (escape : String → String) (output : TransactionOutput) : List Char :=
  "TransactionOutput \x7b recipient:".toList ++
    ((' ' :: '"' :: ((escape output.recipient).toList ++ ['"'])) ++
      (", amount:".toList ++ (' ' :: Nat.toDigits 10 output.amount.toNat) ++ [' ']))

theorem TransactionOutput.toList_debug (output : TransactionOutput) :
    (output.debug escape).toList = outputBody escape output ++ ['\x7d'] := by
  unfold debug outputBody
  simp [toList_debugStr]

theorem suffixCode_outputBody (h : EscapeLaw escape) :
    SuffixCode fun output ↦ outputBody escape output ++ ['\x7d'] := by
  have hamount : SuffixCode fun amount : U128 ↦ ' ' :: Nat.toDigits 10 amount.toNat :=
    suffixCode_word rfl
  have hfields := (suffixCode_debugStr h).append
    ((hamount.text_append ", amount:".toList).append_text [' '])
  have htext := hfields.text_append "TransactionOutput \x7b recipient:".toList
  apply (htext.append_text ['\x7d']).comp (f := fun output : TransactionOutput ↦
    (output.recipient, output.amount))
  intro output output' heq
  cases output
  cases output'
  simpa using heq

/-- The text of a list up to the bracket that closes it. -/
def listBody {α : Type} (body : α → List Char) (items : List α) : List Char :=
  '[' :: List.intercalate ([','] ++ [' ']) (items.map fun a ↦ body a ++ ['\x7d'])

theorem toList_debugVec {α : Type} {debug : α → String} {body : α → List Char}
    (h : ∀ a, (debug a).toList = body a ++ ['\x7d']) (items : List α) :
    (debugVec debug items).toList = listBody body items ++ [']'] := by
  have hmap : items.map (fun a ↦ (debug a).toList) = items.map fun a ↦ body a ++ ['\x7d'] :=
    List.map_congr_left fun a _ ↦ h a
  simp only [debugVec, String.toList_append, String.toList_intercalate, List.map_map,
    Function.comp_def, hmap]
  rfl

theorem suffixCode_listBody {α : Type} {body : α → List Char}
    (h : SuffixCode fun a ↦ body a ++ ['\x7d']) : SuffixCode (listBody body) :=
  SuffixCode.listed h (by decide) [','] (by decide)

/-- What `tx_data` writes behind the sender. -/
def txFields (escape : String → String)
    (fields : List TransactionInput × List TransactionOutput × U128) : List Char :=
  (listBody (inputBody escape) fields.1 ++ [']']) ++
    (listBody (outputBody escape) fields.2.1 ++ (']' :: Nat.toDigits 10 fields.2.2.toNat))

theorem suffixCode_txFields (h : EscapeLaw escape) : SuffixCode (txFields escape) := by
  have hinputs := suffixCode_listBody (suffixCode_inputBody h)
  have houtputs := suffixCode_listBody (suffixCode_outputBody h)
  exact (hinputs.append_text [']']).append (houtputs.append (suffixCode_word rfl))

theorem toList_txData (sender : String) (inputs : List TransactionInput)
    (outputs : List TransactionOutput) (fee : U128) :
    (Transaction.txData escape sender inputs outputs fee).toList =
      sender.toList ++ txFields escape (inputs, outputs, fee) := by
  unfold Transaction.txData txFields
  rw [String.toList_append, String.toList_append, String.toList_append,
    toList_debugVec TransactionInput.toList_debug, toList_debugVec TransactionOutput.toList_debug,
    Nat.toString_eq_repr, Nat.toList_repr]
  simp only [List.append_assoc, List.cons_append, List.nil_append]

end Debug

/-- The hashed text determines the four values it is made of. -/
theorem eq_of_txData_eq {escape : String → String} (h : EscapeLaw escape)
    {sender sender' : String} {inputs inputs' : List TransactionInput}
    {outputs outputs' : List TransactionOutput} {fee fee' : U128}
    (heq : Transaction.txData escape sender inputs outputs fee =
      Transaction.txData escape sender' inputs' outputs' fee') :
    (sender, inputs, outputs, fee) = (sender', inputs', outputs', fee') := by
  have hchars := congrArg String.toList heq
  rw [toList_txData, toList_txData] at hchars
  obtain ⟨hsender, hfields⟩ := suffixCode_txFields h (a := (inputs, outputs, fee))
    (b := (inputs', outputs', fee')) hchars
  rw [String.toList_inj.mp hsender, hfields]

/-- Different senders, inputs, outputs or fees never give the text to hash of each other. -/
theorem txData_injective {escape : String → String} (h : EscapeLaw escape) :
    Function.Injective
      fun tx : String × List TransactionInput × List TransactionOutput × U128 ↦
        Transaction.txData escape tx.1 tx.2.1 tx.2.2.1 tx.2.2.2 :=
  fun _ _ heq ↦ eq_of_txData_eq h heq

/-- The characters that `Debug` writes as a backslash and a letter. -/
def escapeLetter (c : Char) : Option Char :=
  if c = '"' then some '"'
  else if c = '\\' then some '\\'
  else if c = '\n' then some 'n'
  else if c = '\r' then some 'r'
  else if c = '\t' then some 't'
  else if c = '\x00' then some '0'
  else none

/-- The escape of `Debug` on texts whose other characters are printable. -/
def escapePrintable (s : String) : String :=
  String.ofList (s.toList.flatMap fun c ↦
    match escapeLetter c with
    | some letter => ['\\', letter]
    | none => [c])

/-- The character that a letter behind a backslash stands for. -/
def unescapeLetter (letter : Char) : Char :=
  if letter = 'n' then '\n'
  else if letter = 'r' then '\r'
  else if letter = 't' then '\t'
  else if letter = '0' then '\x00'
  else letter

/-- The text that was escaped. -/
def unescape : List Char → List Char
  | '\\' :: letter :: text => unescapeLetter letter :: unescape text
  | c :: text => c :: unescape text
  | [] => []

theorem escapeLetter_eq_some {c letter : Char} (h : escapeLetter c = some letter) :
    unescapeLetter letter = c := by
  unfold escapeLetter at h
  split_ifs at h with h₁ h₂ h₃ h₄ h₅ h₆ <;> cases h <;> subst_vars <;> rfl

theorem escapeLetter_eq_none {c : Char} (h : escapeLetter c = none) : c ≠ '"' ∧ c ≠ '\\' := by
  unfold escapeLetter at h
  split_ifs at h with h₁ h₂
  exact ⟨h₁, h₂⟩

theorem escapeLaw_printable : EscapeLaw escapePrintable where
  injective := by
    have hread (text : List Char) :
        unescape (escapePrintable (String.ofList text)).toList = text := by
      simp only [escapePrintable, String.toList_ofList]
      induction text with
      | nil => rfl
      | cons c text ih =>
        rw [List.flatMap_cons]
        cases hc : escapeLetter c with
        | some letter =>
          simp [unescape, escapeLetter_eq_some hc, ih]
        | none =>
          rw [List.singleton_append, unescape, ih]
          exact fun _ _ hb _ ↦ (escapeLetter_eq_none hc).2 hb
    intro s t hst
    have hs := hread s.toList
    have ht := hread t.toList
    rw [String.ofList_toList] at hs ht
    rw [← String.toList_inj, ← hs, hst, ht]
  escaped s := by
    simp only [escapePrintable, String.toList_ofList]
    induction s.toList with
    | nil => exact .nil
    | cons c text ih =>
      rw [List.flatMap_cons]
      cases hc : escapeLetter c with
      | some letter => exact .pair letter ih
      | none => exact .plain (escapeLetter_eq_none hc).1 (escapeLetter_eq_none hc).2 ih

theorem txData_injective_printable :
    Function.Injective
      fun tx : String × List TransactionInput × List TransactionOutput × U128 ↦
        Transaction.txData escapePrintable tx.1 tx.2.1 tx.2.2.1 tx.2.2.2 :=
  txData_injective escapeLaw_printable

namespace Transaction

theorem hash_of_new {escape : String → String} {sha512 : Bytes → Bytes}
    {hexEncode : Bytes → String} {now : U64} {sender : String} {inputs : List TransactionInput}
    {outputs : List TransactionOutput} {fee : U128} {tx : Transaction}
    (h : new escape sha512 hexEncode now sender inputs outputs fee = .ok tx) :
    tx.hash = hexEncode (sha512 (utf8 (txData escape tx.sender tx.inputs tx.outputs tx.fee))) := by
  unfold new at h
  split at h
  · cases h
  split at h
  · cases h
  split at h
  · cases h
  cases h
  rfl

/-- Two transactions under one hash are made of the same values, unless they show a collision
of the hash function. -/
theorem eq_or_collision_of_hash_eq {escape : String → String} (hlaw : EscapeLaw escape)
    {sha512 : Bytes → Bytes} {hexEncode : Bytes → String} (hhex : Function.Injective hexEncode)
    {now now' : U64} {sender sender' : String} {inputs inputs' : List TransactionInput}
    {outputs outputs' : List TransactionOutput} {fee fee' : U128} {tx tx' : Transaction}
    (h : new escape sha512 hexEncode now sender inputs outputs fee = .ok tx)
    (h' : new escape sha512 hexEncode now' sender' inputs' outputs' fee' = .ok tx')
    (hhash : tx.hash = tx'.hash) :
    (tx.sender, tx.inputs, tx.outputs, tx.fee) = (tx'.sender, tx'.inputs, tx'.outputs, tx'.fee) ∨
      ∃ bytes bytes', bytes ≠ bytes' ∧ sha512 bytes = sha512 bytes' := by
  rw [hash_of_new h, hash_of_new h'] at hhash
  by_cases hdata : txData escape tx.sender tx.inputs tx.outputs tx.fee =
      txData escape tx'.sender tx'.inputs tx'.outputs tx'.fee
  · exact .inl (eq_of_txData_eq hlaw hdata)
  · exact .inr ⟨_, _, fun hb ↦ hdata (utf8_injective hb), hhex hhash⟩

end Transaction
end SilverPow.Ledger
