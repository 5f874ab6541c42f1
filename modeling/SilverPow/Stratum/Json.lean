import Mathlib.Data.Nat.Digits.Defs
import SilverPow.Base.Hex

/-!
# JSON values and numbers in text

The values that `serde_json` reads and writes, with the accessors that the pool and its
client use, and the standard library's reading and writing of unsigned numbers. Both ends
of a connection exchange values: the text of a line is left out.
-/

namespace SilverPow.Stratum

open SilverPow.Base

/-- A number: unsigned, negative, or a float given by its bits. -/
inductive Number where
  | posInt (n : U64)
  | negInt (i : Int)
  | float (bits : U64)

/-- A JSON value; an object lists its fields. -/
inductive Value where
  | null
  | bool (b : Bool)
  | number (n : Number)
  | string (s : String)
  | array (items : List Value)
  | object (fields : List (String × Value))

namespace Value

/-- `Value::get` with a field name. -/
def get (v : Value) (key : String) : Option Value :=
  match v with
  | object fields => fields.lookup key
  | _ => none

/-- `Value::as_u64`. -/
def asU64 : Value → Option U64
  | number (.posInt n) => some n
  | _ => none

/-- `Value::as_i64`. -/
def asI64 : Value → Option Int
  | number (.posInt n) => if n.toNat < 2 ^ 63 then some n.toNat else none
  | number (.negInt i) => some i
  | _ => none

/-- `Value::as_str`. -/
def asStr : Value → Option String
  | string s => some s
  | _ => none

/-- `Value::is_null`. -/
def isNull : Value → Bool
  | null => true
  | _ => false

end Value

/-- Value of a digit in a radix up to sixteen. -/
def digitOf (radix : Nat) (c : Char) : Option Nat := (Hex.digitValue c).filter (· < radix)

/-- `u64::from_str_radix`: an optional plus sign and at least one digit, in range. -/
def parseU64 (radix : Nat) (s : String) : Option U64 := do
  let digits ← (match s.toList with
    | '+' :: rest => rest
    | chars => chars).mapM (digitOf radix)
  let value := digits.foldl (fun acc d ↦ radix * acc + d) 0
  if digits = [] ∨ 2 ^ 64 ≤ value then none else some (BitVec.ofNat 64 value)

/-- `format!("\x7b:x\x7d", n)`. -/
def hexText (n : Nat) : String := String.ofList (Nat.toDigits 16 n)

/-- The digits of a positive number are written most significant first. -/
theorem toDigits_eq_digits {b n : Nat} (hb : 1 < b) (hn : 0 < n) :
    Nat.toDigits b n = ((Nat.digits b n).map Nat.digitChar).reverse := by
  induction n using Nat.strongRecOn with
  | ind n ih =>
    rw [Nat.toDigits_eq_if hb, Nat.digits_def' hb hn, List.map_cons, List.reverse_cons]
    split
    · next h => rw [Nat.mod_eq_of_lt h, Nat.div_eq_of_lt h, Nat.digits_zero]; rfl
    · next h =>
      have hpos : 0 < n / b := Nat.div_pos (Nat.le_of_not_lt h) (by omega)
      rw [ih _ (Nat.div_lt_self hn hb) hpos]

/-- The characters of a number's hexadecimal text are digits. -/
theorem exists_of_mem_toDigits {n : Nat} {ch : Char} (h : ch ∈ Nat.toDigits 16 n) :
    ∃ d < 16, ch = d.digitChar := by
  rcases Nat.eq_zero_or_pos n with rfl | hn
  · rw [Nat.toDigits_zero, List.mem_singleton] at h
    exact ⟨0, by decide, h⟩
  · rw [toDigits_eq_digits (by omega) hn, List.mem_reverse, List.mem_map] at h
    obtain ⟨d, hd, rfl⟩ := h
    exact ⟨d, Nat.digits_lt_base (by omega) hd, rfl⟩

/-- A hexadecimal digit in a radix up to sixteen. -/
theorem digitOf_digitChar {radix d : Nat} (h : d < 16) :
    digitOf radix d.digitChar = if d < radix then some d else none := by
  rw [digitOf, Hex.digitValue_digitChar h, Option.filter_some]
  simp only [decide_eq_true_eq]

/-- Hexadecimal digits are read one by one, and each must be below the radix. -/
theorem mapM_digitOf {radix : Nat} {ds : List Nat} (h : ∀ d ∈ ds, d < 16) :
    (ds.map Nat.digitChar).mapM (digitOf radix) =
      if ∀ d ∈ ds, d < radix then some ds else none := by
  induction ds with
  | nil => rfl
  | cons d ds ih =>
    rw [List.forall_mem_cons] at h
    rw [List.map_cons, List.mapM_cons, digitOf_digitChar h.1, ih h.2]
    simp only [List.forall_mem_cons]
    by_cases hd : d < radix
    · by_cases hds : ∀ d ∈ ds, d < radix
      · rw [if_pos hd, if_pos hds, if_pos ⟨hd, hds⟩]
        rfl
      · rw [if_pos hd, if_neg hds, if_neg (fun hc ↦ hds hc.2)]
        rfl
    · have hne : ¬(d < radix ∧ ∀ d ∈ ds, d < radix) := fun hc ↦ hd hc.1
      rw [if_neg hd, if_neg hne]
      rfl

/-- Text without a sign is read digit by digit. -/
theorem parseU64_of_no_plus {radix : Nat} {chars : List Char} (h : '+' ∉ chars) :
    parseU64 radix (String.ofList chars) = (chars.mapM (digitOf radix)).bind fun digits ↦
      let value := digits.foldl (fun acc d ↦ radix * acc + d) 0
      if digits = [] ∨ 2 ^ 64 ≤ value then none else some (BitVec.ofNat 64 value) := by
  unfold parseU64
  rw [String.toList_ofList]
  split
  · next rest => exact absurd List.mem_cons_self h
  · rfl

/-- Hexadecimal text read in a radix up to sixteen: a digit that the radix lacks is an error,
and otherwise the digits keep their places. -/
theorem parseU64_hexText {radix n : Nat} (hr : 0 < radix) (hle : radix ≤ 16) (hn : n < 2 ^ 64) :
    parseU64 radix (hexText n) =
      if ∀ d ∈ Nat.digits 16 n, d < radix then
        some (BitVec.ofNat 64 (Nat.ofDigits radix (Nat.digits 16 n)))
      else none := by
  have hplus : '+' ∉ Nat.toDigits 16 n := by
    intro h
    obtain ⟨d, hd, he⟩ := exists_of_mem_toDigits h
    revert d
    decide
  have hlt : Nat.ofDigits radix (Nat.digits 16 n) < 2 ^ 64 := by
    have h := Nat.ofDigits_monotone (Nat.digits 16 n) hle
    rw [Nat.ofDigits_digits] at h
    omega
  rw [hexText, parseU64_of_no_plus hplus]
  rcases Nat.eq_zero_or_pos n with rfl | hpos
  · have hz : digitOf radix '0' = some 0 :=
      (digitOf_digitChar (show 0 < 16 by decide)).trans (if_pos hr)
    rw [Nat.toDigits_zero, Nat.digits_zero, if_pos (List.forall_mem_nil _), List.mapM_cons, hz]
    rfl
  · have hmem : ∀ d ∈ (Nat.digits 16 n).reverse, d < 16 := fun d hd ↦
      Nat.digits_lt_base (by omega) (List.mem_reverse.mp hd)
    have hne : (Nat.digits 16 n).reverse ≠ [] :=
      mt List.reverse_eq_nil_iff.mp (Nat.digits_ne_nil_iff_ne_zero.mpr (by omega))
    rw [toDigits_eq_digits (by omega) hpos, ← List.map_reverse, mapM_digitOf hmem]
    simp only [List.mem_reverse]
    split
    · have hvalue : (Nat.digits 16 n).reverse.foldl (fun acc d ↦ radix * acc + d) 0 =
          Nat.ofDigits radix (Nat.digits 16 n) := by
        rw [List.foldl_reverse, Nat.ofDigits_eq_foldr]
        simp only [Nat.add_comm, Nat.cast_id]
      rw [Option.bind_some, hvalue, if_neg]
      rw [not_or]
      exact ⟨hne, by omega⟩
    · rfl

/-- A text filled up on the left with zeros. -/
def zeroPad (width : Nat) (s : String) : String :=
  String.ofList (List.replicate (width - s.length) '0') ++ s

theorem toList_zeroPad (width : Nat) (s : String) :
    (zeroPad width s).toList = List.replicate (width - s.length) '0' ++ s.toList := by
  rw [zeroPad, String.toList_append, String.toList_ofList]

/-- A number that fits is written in the given width. -/
theorem length_zeroPad_hexText {width n : Nat} (hw : 0 < width) (h : n < 16 ^ width) :
    (zeroPad width (hexText n)).toList.length = width := by
  have hle : (Nat.toDigits 16 n).length ≤ width := (Nat.length_toDigits_le_iff (by omega) hw).mpr h
  rw [toList_zeroPad, List.length_append, List.length_replicate, hexText, String.length_ofList,
    String.toList_ofList]
  omega

/-- The hexadecimal digits of a number, most significant first. -/
theorem exists_hexDigits (n : Nat) :
    ∃ ds : List Nat, Nat.toDigits 16 n = ds.map Nat.digitChar ∧ ds ≠ [] ∧ (∀ d ∈ ds, d < 16) ∧
      ds.foldl (fun acc d ↦ 16 * acc + d) 0 = n := by
  rcases Nat.eq_zero_or_pos n with rfl | hn
  · exact ⟨[0], Nat.toDigits_zero 16, by decide, by decide, rfl⟩
  · refine ⟨(Nat.digits 16 n).reverse, ?_, ?_, ?_, ?_⟩
    · rw [toDigits_eq_digits (by omega) hn, List.map_reverse]
    · exact mt List.reverse_eq_nil_iff.mp (Nat.digits_ne_nil_iff_ne_zero.mpr (by omega))
    · exact fun d hd ↦ Nat.digits_lt_base (by omega) (List.mem_reverse.mp hd)
    · have h := Nat.ofDigits_digits 16 n
      rw [Nat.ofDigits_eq_foldr] at h
      rw [List.foldl_reverse]
      simpa only [Nat.add_comm, Nat.cast_id] using h

theorem foldl_zeros (k : Nat) :
    (List.replicate k 0).foldl (fun acc d ↦ 16 * acc + d) 0 = 0 := by
  induction k with
  | zero => rfl
  | succ k ih => exact ih

/-- Zeros in front of the hexadecimal text of a number do not change what is read. -/
theorem parseU64_zeroPad_hexText (width : Nat) {n : Nat} (hn : n < 2 ^ 64) :
    parseU64 16 (zeroPad width (hexText n)) = some (BitVec.ofNat 64 n) := by
  obtain ⟨ds, hds, hne, hlt, hvalue⟩ := exists_hexDigits n
  have htext : zeroPad width (hexText n) =
      String.ofList ((List.replicate (width - (hexText n).length) 0 ++ ds).map Nat.digitChar) := by
    rw [← String.toList_inj, toList_zeroPad, String.toList_ofList, List.map_append,
      List.map_replicate, ← hds, hexText, String.toList_ofList]
    rfl
  have hmem : ∀ d ∈ List.replicate (width - (hexText n).length) 0 ++ ds, d < 16 := by
    intro d hd
    rcases List.mem_append.mp hd with hd | hd
    · rw [List.eq_of_mem_replicate hd]
      decide
    · exact hlt d hd
  have hplus : '+' ∉ (List.replicate (width - (hexText n).length) 0 ++ ds).map Nat.digitChar := by
    intro hc
    obtain ⟨d, hd, he⟩ := List.mem_map.mp hc
    have := hmem d hd
    revert he
    interval_cases d <;> decide
  rw [htext, parseU64_of_no_plus hplus, mapM_digitOf hmem, if_pos hmem, Option.bind_some]
  dsimp only
  rw [List.foldl_append, foldl_zeros, hvalue, if_neg]
  rw [not_or, List.append_eq_nil_iff]
  exact ⟨fun h ↦ hne h.2, by omega⟩

end SilverPow.Stratum
