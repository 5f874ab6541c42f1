import Mathlib.Tactic.IntervalCases
import SilverPow.Base.Bytes

/-!
# Hexadecimal text

The hexadecimal codec that a program links against. Programs take it as a parameter;
`Hex.base16` is the usual codec, two digits a byte, case-insensitive when decoding and
lower-case when encoding.
-/

namespace SilverPow.Base

/-- A hexadecimal codec; decoding fails on text that is not hexadecimal. -/
structure Hex where
  decode : String → Option (List U8)
  encode : List U8 → String

namespace Hex

/-- Value of one hexadecimal digit: `0`–`9`, `a`–`f` or `A`–`F`. -/
def digitValue (c : Char) : Option Nat :=
  let n := c.toNat
  if 48 ≤ n ∧ n ≤ 57 then some (n - 48)
  else if 97 ≤ n ∧ n ≤ 102 then some (n - 97 + 10)
  else if 65 ≤ n ∧ n ≤ 70 then some (n - 65 + 10)
  else none

/-- Decode digits in pairs; an odd digit at the end is an error. -/
def decodeDigits : List Char → Option (List U8)
  | [] => some []
  | [_] => none
  | high :: low :: rest => do
    let h ← digitValue high
    let l ← digitValue low
    let bytes ← decodeDigits rest
    return BitVec.ofNat 8 (16 * h + l) :: bytes

/-- The two digits of a byte, high digit first. -/
def encodeByte (b : U8) : List Char :=
  [(b.toNat / 16).digitChar, (b.toNat % 16).digitChar]

/-- The usual codec. -/
def base16 : Hex where
  decode s := decodeDigits s.toList
  encode bytes := String.ofList (bytes.flatMap encodeByte)

theorem base16_decode (s : String) : base16.decode s = decodeDigits s.toList := rfl

/-- A digit repeated decodes to one byte repeated. -/
theorem decodeDigits_replicate {ch : Char} {d : Nat} (h : digitValue ch = some d) (n : Nat) :
    decodeDigits (List.replicate (2 * n) ch) =
      some (List.replicate n (BitVec.ofNat 8 (16 * d + d))) := by
  induction n with
  | zero => rfl
  | succ n ih =>
    rw [show 2 * (n + 1) = 2 * n + 1 + 1 from rfl, List.replicate_succ, List.replicate_succ,
      decodeDigits, h, ih]
    rfl

/-- What decodes is two digits for each byte. -/
theorem length_of_decodeDigits {chars : List Char} {bytes : List U8}
    (h : decodeDigits chars = some bytes) :
    chars.length = 2 * bytes.length ∧ ∀ ch ∈ chars, (digitValue ch).isSome = true := by
  induction chars using decodeDigits.induct generalizing bytes with
  | case1 =>
    cases h
    exact ⟨rfl, nofun⟩
  | case2 ch => cases h
  | case3 high low rest ih =>
    simp only [decodeDigits, Option.bind_eq_bind, Option.bind_eq_some_iff, Option.pure_def,
      Option.some.injEq] at h
    obtain ⟨h₁, hh, l₁, hl, bytes, hb, rfl⟩ := h
    obtain ⟨hlen, hdigits⟩ := ih hb
    refine ⟨by rw [List.length_cons, List.length_cons, List.length_cons, hlen]; omega, ?_⟩
    rw [List.forall_mem_cons, List.forall_mem_cons, hh, hl]
    exact ⟨rfl, rfl, hdigits⟩

/-- A digit is an ASCII character. -/
theorem toNat_lt_of_isSome_digitValue {ch : Char} (h : (digitValue ch).isSome = true) :
    ch.toNat < 128 := by
  unfold digitValue at h
  dsimp only at h
  split_ifs at h
  all_goals first | omega | cases h

/-- A digit is read as the value it was written from. -/
theorem digitValue_digitChar {n : Nat} (h : n < 16) : digitValue n.digitChar = some n := by
  interval_cases n <;> rfl

/-- The two digits of a byte are read as that byte. -/
theorem decodeDigits_encodeByte (b : U8) (cs : List Char) :
    decodeDigits (encodeByte b ++ cs) = (decodeDigits cs).map (b :: ·) := by
  have hb : b.toNat < 256 := b.isLt
  have hv : BitVec.ofNat 8 (16 * (b.toNat / 16) + b.toNat % 16) = b := by
    rw [Nat.div_add_mod, BitVec.ofNat_toNat, BitVec.setWidth_eq]
  rw [encodeByte, List.cons_append, List.cons_append, List.nil_append, decodeDigits,
    digitValue_digitChar (by omega), digitValue_digitChar (by omega)]
  cases decodeDigits cs with
  | none => rfl
  | some bytes => exact congrArg (fun x ↦ some (x :: bytes)) hv

/-- The digits of a byte string are read as that byte string. -/
theorem decodeDigits_encode (bytes : List U8) :
    decodeDigits (bytes.flatMap encodeByte) = some bytes := by
  induction bytes with
  | nil => rfl
  | cons b bytes ih =>
    rw [List.flatMap_cons, decodeDigits_encodeByte, ih]
    rfl

/-- What the codec writes it reads back. -/
theorem base16_decode_encode (bytes : List U8) :
    base16.decode (base16.encode bytes) = some bytes := by
  rw [base16_decode, base16, String.toList_ofList, decodeDigits_encode]

/-- A list that writes in pairs writes twice its length. -/
theorem length_pairs {α β : Type*} (f g : α → β) (xs : List α) :
    (xs.flatMap fun x ↦ [f x, g x]).length = 2 * xs.length := by
  induction xs with
  | nil => rfl
  | cons x xs ih =>
    rw [List.flatMap_cons, List.length_append, ih, List.length_cons]
    simp only [List.length_cons, List.length_nil]
    omega

/-- Of what a list writes in pairs, the even places hold the first halves. -/
theorem getElem?_pairs_even {α β : Type*} (f g : α → β) (xs : List α) (k : Nat) :
    (xs.flatMap fun x ↦ [f x, g x])[2 * k]? = xs[k]?.map f := by
  induction xs generalizing k with
  | nil => rfl
  | cons x xs ih =>
    cases k with
    | zero => rfl
    | succ k => exact ih k

/-- The odd places hold the second halves. -/
theorem getElem?_pairs_odd {α β : Type*} (f g : α → β) (xs : List α) (k : Nat) :
    (xs.flatMap fun x ↦ [f x, g x])[2 * k + 1]? = xs[k]?.map g := by
  induction xs generalizing k with
  | nil => rfl
  | cons x xs ih =>
    cases k with
    | zero => rfl
    | succ k => exact ih k

/-- The character code of a digit. -/
def digitByte (n : Nat) : U8 := BitVec.ofNat 8 n.digitChar.toNat

/-- The codes of the two digits of a byte. -/
def digitBytes (b : U8) : Bytes := [digitByte (b.toNat / 16), digitByte (b.toNat % 16)]

/-- Digits are ASCII characters. -/
theorem toNat_digitChar_lt {n : Nat} (h : n < 16) : n.digitChar.toNat < 128 := by
  interval_cases n <;> decide

/-- The bytes of hexadecimal text are the codes of its digits. -/
theorem utf8_encode (bytes : List U8) :
    utf8 (base16.encode bytes) = bytes.flatMap digitBytes := by
  rw [base16, utf8_of_ascii, String.toList_ofList, List.map_flatMap]
  · rfl
  · intro c hc
    rw [String.toList_ofList, List.mem_flatMap] at hc
    obtain ⟨b, -, hc⟩ := hc
    have hb : b.toNat < 256 := b.isLt
    rw [encodeByte, List.mem_cons, List.mem_singleton] at hc
    rcases hc with rfl | rfl
    · exact toNat_digitChar_lt (by omega)
    · exact toNat_digitChar_lt (by omega)

/-- Text of 64 bytes made of one digit decodes. -/
theorem isSome_decode_replicate {ch : Char} {d : Nat} (h : digitValue ch = some d) :
    (base16.decode (String.ofList (List.replicate 128 ch))).isSome = true := by
  have hd : decodeDigits (List.replicate 128 ch) = some (List.replicate 64 _) :=
    decodeDigits_replicate h 64
  rw [base16_decode, String.toList_ofList, hd, Option.isSome_some]

end Hex
end SilverPow.Base
