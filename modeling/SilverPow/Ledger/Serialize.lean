import SilverPow.Base.Hex
import SilverPow.Ledger.Validation

/-!
# The crates that the engine links against

The usual hexadecimal codec and the JSON text that the derived serializer produces for a
transaction: fields in declaration order, no blanks, quotes and control characters
escaped. Results about the engine hold for any `Crates`; `Crates.linked` runs them.
-/

namespace SilverPow.Ledger

open SilverPow.Base

namespace Json

/-- One character of a JSON string. -/
def escape (c : Char) : List Char :=
  if c = '"' then ['\\', '"']
  else if c = '\\' then ['\\', '\\']
  else if c = '\n' then ['\\', 'n']
  else if c = '\r' then ['\\', 'r']
  else if c = '\t' then ['\\', 't']
  else if c.toNat = 8 then ['\\', 'b']
  else if c.toNat = 12 then ['\\', 'f']
  else if c.toNat < 32 then
    ['\\', 'u', '0', '0'] ++ Hex.encodeByte (BitVec.ofNat 8 c.toNat)
  else [c]

/-- A JSON string. -/
def text (s : String) : List Char := '"' :: s.toList.flatMap escape ++ ['"']

/-- A JSON number. -/
def number (n : Nat) : List Char := (toString n).toList

/-- JSON values between brackets, separated by commas. -/
def array (items : List (List Char)) : List Char :=
  '[' :: List.intercalate [','] items ++ [']']

/-- Named JSON values between braces, separated by commas. -/
def object (fields : List (String × List Char)) : List Char :=
  '\x7b' :: List.intercalate [','] (fields.map fun f ↦ text f.1 ++ ':' :: f.2) ++ ['\x7d']

/-- The name of a unit variant. -/
def status : TransactionStatus → List Char
  | .pending => text "Pending"
  | .confirmed => text "Confirmed"
  | .failed => text "Failed"
  | .finalized => text "Finalized"

/-- The derived serialization of a transaction input. -/
def input (i : TransactionInput) : List Char :=
  object [("prev_tx_hash", text i.prevTxHash), ("output_index", number i.outputIndex.toNat),
    ("signature", text i.signature)]

/-- The derived serialization of a transaction output. -/
def output (o : TransactionOutput) : List Char :=
  object [("recipient", text o.recipient), ("amount", number o.amount.toNat)]

/-- The derived serialization of a transaction. -/
def transaction (tx : Transaction) : List Char :=
  object [("hash", text tx.hash), ("sender", text tx.sender),
    ("inputs", array (tx.inputs.map input)), ("outputs", array (tx.outputs.map output)),
    ("fee", number tx.fee.toNat), ("timestamp", number tx.timestamp.toNat),
    ("status", status tx.status)]

end Json

/-- The linked crates. -/
def Crates.linked : Crates where
  hexDecode := Hex.base16.decode
  jsonBytes tx :=
    some ((Json.transaction tx).flatMap fun c ↦
      (String.utf8EncodeChar c).map UInt8.toBitVec)

/-- A digit repeated to 128 characters is hexadecimal. -/
theorem Crates.isSome_linked_hexDecode {ch : Char} {d : Nat} (h : Hex.digitValue ch = some d) :
    (Crates.linked.hexDecode (String.ofList (List.replicate 128 ch))).isSome = true :=
  Hex.isSome_decode_replicate h

end SilverPow.Ledger
