import SilverPow.Base.LongDivision
import SilverPow.CpuMiner.U512

/-!
# When the long division is right

`div_u128`, `src/bin/cpu_miner_real.rs:57–108` and `src/stratum_pool.rs:1684–1736`, shifts its
128-bit remainder by half a word, so that a remainder of more than 64 bits loses its high bits,
and it looks for the place of a quotient word by the words that are zero so far, so that a zero
word is overwritten by the next one.
-/

namespace SilverPow.CpuMiner.U512

open SilverPow.Base SilverPow.Work SilverPow.Base.LongDivision

/-- The words of a number, the most significant first. -/
def words (a : U512) : List Nat :=
  [a.part0.toNat, a.part1.toNat, a.part2.toNat, a.part3.toNat]

theorem value_eq_valueFrom (a : U512) : a.value = valueFrom (2 ^ 64) 0 a.words := by
  simp only [value, words, valueFrom, List.foldl_cons, List.foldl_nil, Nat.zero_mul,
    Nat.zero_add, ← Nat.pow_add, Nat.reduceAdd]

theorem words_lt (a : U512) : ∀ p ∈ a.words, p < 2 ^ 64 * 2 ^ 64 := by
  rw [← Nat.pow_add]
  simp only [words, List.forall_mem_cons, List.not_mem_nil, false_implies, implies_true, and_true]
  exact ⟨a.part0.isLt, a.part1.isLt, a.part2.isLt, a.part3.isLt⟩

/-! ### One word -/

/-- The quotient of one word and the remainder that it leaves. -/
def divPart (divisor remainder part : U128) : U128 × U128 :=
  let combined := remainder <<< 64 ||| part >>> 64
  let combinedLow := (combined % divisor) <<< 64 ||| part &&& 0xFFFFFFFFFFFFFFFF
  ((combined / divisor) <<< 64 ||| combinedLow / divisor, combinedLow % divisor)

theorem divRound_eq (divisor : U128) (result : U512) (remainder part : U128) :
    divRound divisor (result, remainder) part =
      (result.place (divPart divisor remainder part).1, (divPart divisor remainder part).2) :=
  rfl

/-- A shift by half a word keeps the low half only. -/
theorem toNat_shiftLeft_or {a b : U128} (hb : b.toNat < 2 ^ 64) :
    (a <<< 64 ||| b).toNat = a.toNat % 2 ^ 64 * 2 ^ 64 + b.toNat := by
  have hshift : (a <<< 64).toNat = (a.toNat % 2 ^ 64) <<< 64 := by
    rw [BitVec.toNat_shiftLeft, Nat.shiftLeft_eq, Nat.shiftLeft_eq,
      show 2 ^ 128 = 2 ^ 64 * 2 ^ 64 by rw [← Nat.pow_add], Nat.mul_mod_mul_right]
  rw [BitVec.toNat_or, hshift, ← Nat.shiftLeft_add_eq_or_of_lt hb, Nat.shiftLeft_eq]

theorem toNat_high (part : U128) : (part >>> 64).toNat = part.toNat / 2 ^ 64 := by
  rw [BitVec.toNat_ushiftRight, Nat.shiftRight_eq_div_pow]

theorem toNat_low (part : U128) :
    (part &&& 0xFFFFFFFFFFFFFFFF).toNat = part.toNat % 2 ^ 64 := by
  rw [BitVec.toNat_and]
  exact Nat.and_two_pow_sub_one_eq_mod part.toNat 64

/-- A word is divided as two halves. -/
theorem toNat_divPart {divisor remainder : U128} (part : U128)
    (hr : remainder.toNat < divisor.toNat) :
    ((divPart divisor remainder part).1.toNat, (divPart divisor remainder part).2.toNat) =
      divWord (2 ^ 64) divisor.toNat remainder.toNat part.toNat := by
  have hp : part.toNat < 2 ^ 64 * 2 ^ 64 := by
    rw [← Nat.pow_add]
    exact part.isLt
  obtain ⟨hqHigh, hqLow⟩ := divWord_fst_lt ((Nat.zero_le _).trans_lt hr) hr hp
  have hhigh : (part >>> 64).toNat < 2 ^ 64 := by
    rw [toNat_high]
    exact Nat.div_lt_of_lt_mul hp
  have hlow : (part &&& 0xFFFFFFFFFFFFFFFF).toNat < 2 ^ 64 := by
    rw [toNat_low]
    exact Nat.mod_lt _ (by decide)
  have hcombined : (remainder <<< 64 ||| part >>> 64).toNat =
      remainder.toNat % 2 ^ 64 * 2 ^ 64 + part.toNat / 2 ^ 64 := by
    rw [toNat_shiftLeft_or hhigh, toNat_high]
  have hcombinedLow : (((remainder <<< 64 ||| part >>> 64) % divisor) <<< 64 |||
      part &&& 0xFFFFFFFFFFFFFFFF).toNat =
      (remainder.toNat % 2 ^ 64 * 2 ^ 64 + part.toNat / 2 ^ 64) % divisor.toNat % 2 ^ 64 * 2 ^ 64 +
        part.toNat % 2 ^ 64 := by
    rw [toNat_shiftLeft_or hlow, toNat_low, BitVec.toNat_umod, hcombined]
  simp only [divPart, divWord]
  rw [toNat_shiftLeft_or (by rwa [BitVec.toNat_udiv, hcombinedLow]), BitVec.toNat_udiv,
    BitVec.toNat_udiv, BitVec.toNat_umod, hcombined, hcombinedLow, Nat.mod_eq_of_lt hqHigh]

/-! ### All words -/

/-- The quotients of the words in their order. -/
def quotients (divisor : U128) : U128 → List U128 → List U128
  | _, [] => []
  | remainder, part :: parts =>
    (divPart divisor remainder part).1 ::
      quotients divisor (divPart divisor remainder part).2 parts

theorem foldl_divRound (divisor : U128) (result : U512) (remainder : U128) (parts : List U128) :
    (parts.foldl (divRound divisor) (result, remainder)).1 =
      (quotients divisor remainder parts).foldl place result := by
  induction parts generalizing result remainder with
  | nil => rfl
  | cons part parts ih =>
    rw [List.foldl_cons, divRound_eq, ih, quotients, List.foldl_cons]

theorem map_toNat_quotients {divisor remainder : U128} (parts : List U128)
    (hr : remainder.toNat < divisor.toNat) :
    (quotients divisor remainder parts).map BitVec.toNat =
      divWords (2 ^ 64) divisor.toNat remainder.toNat (parts.map BitVec.toNat) := by
  induction parts generalizing remainder with
  | nil => rfl
  | cons part parts ih =>
    have hpart := toNat_divPart part hr
    have hlt : (divPart divisor remainder part).2.toNat < divisor.toNat := by
      rw [(Prod.mk.inj hpart).2]
      exact divWord_snd_lt ((Nat.zero_le _).trans_lt hr)
    rw [quotients, List.map_cons, ih hlt, List.map_cons, divWords, ← hpart]

/-- Four quotient words are placed with the zero words at the end. -/
theorem words_foldl_place (c₀ c₁ c₂ c₃ : U128) :
    ([c₀, c₁, c₂, c₃].foldl place ⟨0, 0, 0, 0⟩).words =
      compact ([c₀, c₁, c₂, c₃].map BitVec.toNat) := by
  have hzero (c : U128) : c.toNat = 0 ↔ c = 0#128 := BitVec.toNat_inj (y := 0#128)
  by_cases h₀ : c₀ = 0#128 <;> by_cases h₁ : c₁ = 0#128 <;> by_cases h₂ : c₂ = 0#128 <;>
    simp [place, words, h₀, h₁, h₂, hzero, compact_singleton]

theorem toNat_pos {divisor : U128} (h : divisor ≠ 0) : 0 < divisor.toNat :=
  Nat.pos_of_ne_zero fun hzero ↦ h (BitVec.eq_of_toNat_eq hzero)

theorem words_divU128 (n : U512) {divisor : U128} (h : divisor ≠ 0) :
    (n.divU128 divisor).words = compact (divWords (2 ^ 64) divisor.toNat 0 n.words) := by
  have hpos : (0 : U128).toNat < divisor.toNat := toNat_pos h
  have hquotients := map_toNat_quotients [n.part0, n.part1, n.part2, n.part3] hpos
  rw [divU128, if_neg h, foldl_divRound]
  exact (words_foldl_place _ _ _ _).trans (congrArg compact hquotients)

/-- `div_u128` divides exactly when no remainder of the division on paper that is carried to a
further half has more than 64 bits, and no zero word of the quotient stands before another. -/
theorem value_divU128_iff (n : U512) (divisor : U128) (h : divisor ≠ 0) :
    (n.divU128 divisor).value = n.value / divisor.toNat ↔
      AllCarry (2 ^ 64) divisor.toNat 0 n.words ∧ ZerosLast (2 ^ 64) divisor.toNat 0 n.words := by
  have hlt : divisor.toNat < 2 ^ 64 * 2 ^ 64 := by
    rw [← Nat.pow_add]
    exact divisor.isLt
  rw [value_eq_valueFrom, value_eq_valueFrom, words_divU128 n h]
  exact valueFrom_compact_iff (by decide) (toNat_pos h) hlt n.words_lt (Nat.le_refl 4)

/-- The target of a pool share is divided. -/
theorem value_divU128_iff_pool_target :
    (1_000_000_000 : U128) ≠ 0 ∧
      (max.divU128 1_000_000_000).value = max.value / (1_000_000_000 : U128).toNat :=
  ⟨by decide, (value_divU128_iff max 1_000_000_000 (by decide)).mpr
    ⟨allCarry_of_le (by decide) (by decide) (by decide), by decide⟩⟩

/-- One divided by one is not one: the quotient of the last word is put in the first place. -/
theorem value_one_divU128_one :
    (⟨0, 0, 0, 1⟩ : U512).divU128 1 = ⟨1, 0, 0, 0⟩ ∧
      ((⟨0, 0, 0, 1⟩ : U512).divU128 1).value ≠
        (⟨0, 0, 0, 1⟩ : U512).value / (1 : U128).toNat := by
  decide

end SilverPow.CpuMiner.U512
