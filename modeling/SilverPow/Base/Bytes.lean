import Mathlib.Tactic.Ring
import SilverPow.Base.SuffixCode
import SilverPow.Base.Word

/-!
# Byte strings

Little-endian encodings, the lexicographic order of byte slices, and the leading zero
bits of a byte string. Between strings of one length the order is that of the big-endian
values, and a number of leading zero bits is a bound on the value.
-/

namespace SilverPow.Base

/-- A byte string. -/
abbrev Bytes := List U8

/-- The `n` low bytes of a number, least significant first. -/
def leBytes : Nat → Nat → Bytes
  | 0, _ => []
  | n + 1, x => BitVec.ofNat 8 x :: leBytes n (x / 256)

/-- Value of a byte string, least significant byte first. -/
def leNat : Bytes → Nat
  | [] => 0
  | b :: bs => b.toNat + 256 * leNat bs

/-- The UTF-8 bytes of a text. -/
def utf8 (s : String) : Bytes :=
  s.toList.flatMap fun c ↦ (String.utf8EncodeChar c).map UInt8.toBitVec

/-- `String::from_utf8`. -/
def fromUtf8 (bytes : Bytes) : Option String :=
  String.fromUTF8? (bytes.map UInt8.ofBitVec).toByteArray

/-- The bytes from `start` up to `stop`; a range out of bounds aborts the program. -/
def slice (bytes : Bytes) (start stop : Nat) : Option Bytes :=
  if start ≤ stop ∧ stop ≤ bytes.length then some ((bytes.drop start).take (stop - start))
  else none

/-- The word of `w` bits whose bytes start at an index, least significant first. -/
def fromLeBytes (w : Nat) (bytes : Bytes) (start : Nat) : Option (BitVec w) :=
  (slice bytes start (start + w / 8)).map fun word ↦ BitVec.ofNat w (leNat word)

/-- Value of a byte string, most significant byte first. -/
def beNat : Bytes → Nat
  | [] => 0
  | b :: bs => b.toNat * 256 ^ bs.length + beNat bs

/-- The order of byte slices: lexicographic, a proper prefix first. -/
def sliceLe : Bytes → Bytes → Bool
  | [], _ => true
  | _ :: _, [] => false
  | a :: as, b :: bs => if a = b then sliceLe as bs else a < b

/-- Number of zero bits before the first set bit. -/
def leadingZeroBits : Bytes → Nat
  | [] => 0
  | b :: bs => if b = 0 then 8 + leadingZeroBits bs else Word.leadingZeros b

theorem toByteArray_utf8 (s : String) :
    ((utf8 s).map UInt8.ofBitVec).toByteArray = s.toByteArray := by
  have hid : UInt8.ofBitVec ∘ UInt8.toBitVec = id := rfl
  rw [utf8, List.map_flatMap, ← String.utf8Encode_toList]
  simp only [List.map_map, hid, List.map_id]
  rfl

/-- Reading the bytes of a text yields the text. -/
theorem fromUtf8_utf8 (s : String) : fromUtf8 (utf8 s) = some s := by
  rw [fromUtf8, toByteArray_utf8, String.fromUTF8?, dif_pos s.isValidUTF8]
  rfl

theorem length_utf8 (s : String) : (utf8 s).length = s.utf8ByteSize := by
  have h := congrArg ByteArray.size (toByteArray_utf8 s)
  rw [List.size_toByteArray, List.length_map] at h
  exact h

/-- Different texts have different bytes. -/
theorem utf8_injective : Function.Injective utf8 := by
  intro s t h
  have hs := fromUtf8_utf8 s
  rw [h, fromUtf8_utf8] at hs
  exact (Option.some.inj hs).symm

theorem length_leBytes (n x : Nat) : (leBytes n x).length = n := by
  induction n generalizing x with
  | zero => rfl
  | succ n ih => rw [leBytes, List.length_cons, ih]

/-- Reading `n` written bytes gives the number back, up to `256 ^ n`. -/
theorem leNat_leBytes (n x : Nat) : leNat (leBytes n x) = x % 256 ^ n := by
  induction n generalizing x with
  | zero => rw [leBytes, leNat, pow_zero, Nat.mod_one]
  | succ n ih =>
    rw [leBytes, leNat, ih, BitVec.toNat_ofNat, pow_succ' 256 n]
    exact Nat.mod_mul.symm

/-- A word is read back from its bytes. -/
theorem ofNat_leNat_leBytes {w n : Nat} (h : 8 * n = w) (x : BitVec w) :
    BitVec.ofNat w (leNat (leBytes n x.toNat)) = x := by
  have hp : 256 ^ n = 2 ^ w := by rw [show 256 = 2 ^ 8 from rfl, ← pow_mul, h]
  rw [leNat_leBytes, hp, Nat.mod_eq_of_lt x.isLt, BitVec.ofNat_toNat, BitVec.setWidth_eq]

theorem leBytes_injective {w n : Nat} (h : 8 * n = w) :
    Function.Injective fun x : BitVec w ↦ leBytes n x.toNat := by
  intro x y hxy
  rw [← ofNat_leNat_leBytes h x, ← ofNat_leNat_leBytes h y]
  exact congrArg (fun bytes ↦ BitVec.ofNat w (leNat bytes)) hxy

/-- A word ends at a known place. -/
theorem suffixCode_leBytes {w n : Nat} (h : 8 * n = w) :
    SuffixCode fun x : BitVec w ↦ leBytes n x.toNat :=
  SuffixCode.of_length (fun _ ↦ length_leBytes n _) (leBytes_injective h)

theorem leNat_lt (bs : Bytes) : leNat bs < 256 ^ bs.length := by
  induction bs with
  | nil => exact Nat.one_pos
  | cons b bs ih =>
    have hb : b.toNat < 256 := b.isLt
    rw [leNat, List.length_cons, pow_succ']
    omega

/-- A byte string is written for its own value. -/
theorem leBytes_leNat (bs : Bytes) : leBytes bs.length (leNat bs) = bs := by
  induction bs with
  | nil => rfl
  | cons b bs ih =>
    have hb : b.toNat < 256 := b.isLt
    have hhead : BitVec.ofNat 8 (leNat (b :: bs)) = b := by
      apply BitVec.eq_of_toNat_eq
      rw [leNat, BitVec.toNat_ofNat]
      omega
    have htail : leNat (b :: bs) / 256 = leNat bs := by
      rw [leNat]
      omega
    rw [List.length_cons, leBytes, hhead, htail, ih]

/-- The bytes a word is read from are written for that word. -/
theorem leBytes_ofNat_leNat {w n : Nat} (h : 8 * n = w) {bs : Bytes} (hl : bs.length = n) :
    leBytes n (BitVec.ofNat w (leNat bs)).toNat = bs := by
  subst hl
  have hlt : leNat bs < 2 ^ w := by
    rw [← h, pow_mul]
    exact leNat_lt bs
  rw [BitVec.toNat_ofNat, Nat.mod_eq_of_lt hlt, leBytes_leNat]

/-- A range within bounds is cut out. -/
theorem slice_of_le {bytes : Bytes} {start stop : Nat} (h : start ≤ stop)
    (hl : stop ≤ bytes.length) :
    slice bytes start stop = some ((bytes.drop start).take (stop - start)) :=
  if_pos ⟨h, hl⟩

/-- A whole byte string is one of its ranges. -/
theorem slice_self {bytes : Bytes} {n : Nat} (h : bytes.length = n) :
    slice bytes 0 n = some bytes := by
  subst h
  rw [slice_of_le (Nat.zero_le _) le_rfl, List.drop_zero, Nat.sub_zero, List.take_length]

/-- What is cut out of the first part does not see the second. -/
theorem take_drop_append {as bs : Bytes} {start n : Nat} (h : start + n ≤ as.length) :
    ((as ++ bs).drop start).take n = (as.drop start).take n := by
  rw [List.drop_append_of_le_length (by omega), List.take_append_of_le_length]
  rw [List.length_drop]
  omega

/-- A range within the first part does not see the second. -/
theorem slice_append_left {as bs : Bytes} {start stop : Nat} (h : stop ≤ as.length) :
    slice (as ++ bs) start stop = slice as start stop := by
  unfold slice
  have hl : stop ≤ (as ++ bs).length := by
    rw [List.length_append]
    omega
  by_cases hs : start ≤ stop
  · rw [if_pos ⟨hs, hl⟩, if_pos ⟨hs, h⟩, take_drop_append (by omega)]
  · rw [if_neg (fun hc ↦ hs hc.1), if_neg (fun hc ↦ hs hc.1)]

/-- A range past the first part is a range of the second. -/
theorem slice_append_right {as bs : Bytes} {start stop : Nat} (ha : as.length ≤ start)
    (h : start ≤ stop) :
    slice (as ++ bs) start stop = slice bs (start - as.length) (stop - as.length) := by
  unfold slice
  have hc : (start ≤ stop ∧ stop ≤ (as ++ bs).length) ↔
      (start - as.length ≤ stop - as.length ∧ stop - as.length ≤ bs.length) := by
    rw [List.length_append]
    omega
  rw [if_congr hc rfl rfl, List.drop_append, List.drop_eq_nil_of_le ha, List.nil_append]
  congr 3
  omega

/-- Some word is read exactly where its bytes fit. -/
theorem fromLeBytes_eq_none_iff (w : Nat) (bytes : Bytes) (start : Nat) :
    fromLeBytes w bytes start = none ↔ bytes.length < start + w / 8 := by
  rw [fromLeBytes, Option.map_eq_none_iff, slice]
  split
  · next h => simp; omega
  · next h => simp; omega

theorem exists_fromLeBytes (w : Nat) {bytes : Bytes} {start : Nat}
    (h : start + w / 8 ≤ bytes.length) : ∃ word, fromLeBytes w bytes start = some word := by
  rw [← Option.ne_none_iff_exists', ne_eq, fromLeBytes_eq_none_iff]
  omega

/-- A word past the first part is a word of the second. -/
theorem fromLeBytes_append_right {w : Nat} {as bs : Bytes} {start : Nat}
    (h : as.length ≤ start) :
    fromLeBytes w (as ++ bs) start = fromLeBytes w bs (start - as.length) := by
  rw [fromLeBytes, slice_append_right h (Nat.le_add_right _ _), Nat.sub_add_comm h, fromLeBytes]

/-- A word is read back from where its bytes start. -/
theorem fromLeBytes_leBytes {w n : Nat} (h : 8 * n = w) (x : BitVec w) (bs : Bytes) :
    fromLeBytes w (leBytes n x.toNat ++ bs) 0 = some x := by
  rw [fromLeBytes, slice_append_left (by rw [length_leBytes]; omega),
    slice_self (by rw [length_leBytes]; omega), Option.map_some, ofNat_leNat_leBytes h]

/-- An ASCII text has one byte for each character. -/
theorem utf8_of_ascii {s : String} (h : ∀ c ∈ s.toList, c.toNat < 128) :
    utf8 s = s.toList.map fun c ↦ BitVec.ofNat 8 c.toNat := by
  rw [utf8, List.map_eq_flatMap]
  refine List.flatMap_congr fun c hc ↦ ?_
  have hv : c.val.toNat ≤ 0x7f := Nat.le_of_lt_succ (h c hc)
  rw [String.utf8EncodeChar, if_pos hv]
  rfl

/-- In an ASCII text, characters and bytes are as many. -/
theorem length_toList_of_ascii {s : String} (h : ∀ c ∈ s.toList, c.toNat < 128) :
    s.toList.length = s.utf8ByteSize := by
  rw [← length_utf8, utf8_of_ascii h, List.length_map]

/-- A string of `n` bytes has a value below `256 ^ n`. -/
theorem beNat_lt (bs : Bytes) : beNat bs < 256 ^ bs.length := by
  induction bs with
  | nil => exact Nat.one_pos
  | cons b bs ih =>
    have hb : (b.toNat + 1) * 256 ^ bs.length ≤ 256 * 256 ^ bs.length :=
      Nat.mul_le_mul_right _ b.isLt
    rw [beNat, List.length_cons, pow_succ, Nat.mul_comm (256 ^ bs.length)]
    rw [Nat.succ_mul] at hb
    omega

/-- The value of a concatenation. -/
theorem beNat_append (as bs : Bytes) :
    beNat (as ++ bs) = beNat as * 256 ^ bs.length + beNat bs := by
  induction as with
  | nil => rw [List.nil_append, beNat, Nat.zero_mul, Nat.zero_add]
  | cons a as ih =>
    rw [List.cons_append, beNat, beNat, ih, List.length_append, pow_add]
    ring

/-- Zero bytes have the value zero. -/
theorem beNat_zeros (n : Nat) : beNat (List.replicate n 0) = 0 := by
  induction n with
  | zero => rfl
  | succ n ih =>
    rw [List.replicate_succ, beNat, ih, show (0 : U8).toNat = 0 from rfl, Nat.zero_mul]

/-- Bytes `0xFF` have the largest value. -/
theorem beNat_ones (n : Nat) : beNat (List.replicate n 0xFF) + 1 = 256 ^ n := by
  induction n with
  | zero => rfl
  | succ n ih =>
    rw [List.replicate_succ, beNat, List.length_replicate, Nat.add_assoc, ih, pow_succ,
      show (0xFF : U8).toNat = 255 from rfl]
    ring

/-- Every slice is at most itself. -/
theorem sliceLe_refl (as : Bytes) : sliceLe as as = true := by
  induction as with
  | nil => rfl
  | cons a as ih => rw [sliceLe, if_pos rfl, ih]

theorem sliceLe_trans {as bs cs : Bytes} (h : sliceLe as bs = true)
    (h' : sliceLe bs cs = true) : sliceLe as cs = true := by
  induction as generalizing bs cs with
  | nil => rfl
  | cons a as ih =>
    match bs, cs with
    | [], _ => cases h
    | b :: bs, [] => cases h'
    | b :: bs, c :: cs =>
      rw [sliceLe] at h h' ⊢
      split at h
      · next hab =>
        subst hab
        split at h'
        · next hac =>
          rw [if_pos hac]
          exact ih h h'
        · next hac =>
          rw [if_neg hac]
          exact h'
      · next hab =>
        rw [decide_eq_true_iff, BitVec.lt_def] at h
        split at h'
        · next hbc =>
          rw [← hbc, if_neg hab, decide_eq_true_iff, BitVec.lt_def]
          exact h
        · rw [decide_eq_true_iff, BitVec.lt_def] at h'
          have hac : a ≠ c := fun hc ↦ by
            rw [hc] at h
            omega
          rw [if_neg hac, decide_eq_true_iff, BitVec.lt_def]
          omega

/-- A digit that what follows cannot fill up decides the order. -/
theorem mul_add_lt_mul_iff {a b r w : Nat} (hr : r < w) : a * w + r < b * w ↔ a < b := by
  have hw : 0 < w := Nat.zero_lt_of_lt hr
  rw [← Nat.div_lt_iff_lt_mul hw, Nat.add_comm, Nat.add_mul_div_right _ _ hw,
    Nat.div_eq_of_lt hr, Nat.zero_add]

/-- A string is determined by its length and its value. -/
theorem eq_of_beNat_eq {as bs : Bytes} (h : as.length = bs.length) (hv : beNat as = beNat bs) :
    as = bs := by
  induction as generalizing bs with
  | nil => exact (List.eq_nil_of_length_eq_zero h.symm).symm
  | cons a as ih =>
    cases bs with
    | nil => cases h
    | cons b bs =>
      have hl : as.length = bs.length := Nat.succ.inj h
      have ha := beNat_lt as
      have hb := beNat_lt bs
      rw [beNat, beNat, hl] at hv
      rw [hl] at ha
      have hlt := mul_add_lt_mul_iff (a := a.toNat) (b := b.toNat) ha
      have hgt := mul_add_lt_mul_iff (a := b.toNat) (b := a.toNat) hb
      have hhead : a = b := BitVec.eq_of_toNat_eq (by omega)
      rw [hhead, Nat.add_left_cancel_iff] at hv
      rw [hhead, ih hl hv]

/-- Between strings of one length the slice order is the order of the values. -/
theorem sliceLe_iff {as bs : Bytes} (h : as.length = bs.length) :
    sliceLe as bs = true ↔ beNat as ≤ beNat bs := by
  induction as generalizing bs with
  | nil => simp [sliceLe, beNat]
  | cons a as ih =>
    cases bs with
    | nil => cases h
    | cons b bs =>
      have hl : as.length = bs.length := Nat.succ.inj h
      have ha := beNat_lt as
      have hb := beNat_lt bs
      rw [sliceLe, beNat, beNat, hl]
      rw [hl] at ha
      split
      · next he => rw [ih hl, he, Nat.add_le_add_iff_left]
      · next he =>
        have hne : a.toNat ≠ b.toNat := fun hn ↦ he (BitVec.eq_of_toNat_eq hn)
        rw [decide_eq_true_eq, BitVec.lt_def]
        constructor
        · intro hlt
          have := (mul_add_lt_mul_iff ha).mpr hlt
          omega
        · intro hle
          by_contra hn
          have := (mul_add_lt_mul_iff hb).mpr (show b.toNat < a.toNat by omega)
          omega

/-- Behind a first byte that is not zero, `n` more bits do not change the number of leading
zero bits. -/
theorem le_leadingZeros_iff_of_ne_zero {b : U8} (hb : b ≠ 0) {n r k : Nat} (hr : r < 2 ^ n)
    (hk : k ≤ 8 + n) : k ≤ Word.leadingZeros b ↔ b.toNat * 2 ^ n + r < 2 ^ (8 + n - k) := by
  have hpos : 0 < b.toNat := BitVec.toNat_pos_of_ne_zero hb
  by_cases h8 : k ≤ 8
  · have hsplit : 2 ^ (8 + n - k) = 2 ^ (8 - k) * 2 ^ n := by
      rw [← pow_add, Nat.sub_add_comm h8]
    rw [Word.le_leadingZeros_iff h8, hsplit, mul_add_lt_mul_iff hr]
  · have hzeros := Word.leadingZeros_le b
    have hle : 2 ^ (8 + n - k) ≤ 2 ^ n := Nat.pow_le_pow_right (by omega) (by omega)
    have hmul := Nat.mul_le_mul_right (2 ^ n) hpos
    rw [Nat.one_mul] at hmul
    omega

/-- A byte string has at least `k` leading zero bits exactly when its value has at most
the other bits. -/
theorem le_leadingZeroBits_iff {bs : Bytes} {k : Nat} (hk : k ≤ 8 * bs.length) :
    k ≤ leadingZeroBits bs ↔ beNat bs < 2 ^ (8 * bs.length - k) := by
  induction bs generalizing k with
  | nil =>
    have : k = 0 := by simpa using hk
    subst this
    simp [leadingZeroBits, beNat]
  | cons b bs ih =>
    have hlt := beNat_lt bs
    have hpow : 256 ^ bs.length = 2 ^ (8 * bs.length) := by
      rw [show 256 = 2 ^ 8 from rfl, ← pow_mul]
    rw [List.length_cons, Nat.mul_succ, Nat.add_comm _ 8] at hk ⊢
    rw [leadingZeroBits, beNat, hpow]
    rw [hpow] at hlt
    split
    · next hb =>
      subst hb
      rw [show (0 : U8).toNat = 0 from rfl, Nat.zero_mul, Nat.zero_add]
      by_cases h8 : k ≤ 8
      · have hle : 2 ^ (8 * bs.length) ≤ 2 ^ (8 + 8 * bs.length - k) :=
          Nat.pow_le_pow_right (by omega) (by omega)
        omega
      · have hrest := ih (k := k - 8) (by omega)
        rw [show 8 + 8 * bs.length - k = 8 * bs.length - (k - 8) by omega, ← hrest]
        omega
    · next hb => exact le_leadingZeros_iff_of_ne_zero hb hlt hk

end SilverPow.Base
