import SilverPow.Work.Target

/-!
# The 512-bit numbers of the CPU miner

`src/bin/cpu_miner_real.rs:13–129`: a hash as four words of 128 bits, the first the most
significant, with the derived order and the division that the targets are computed with. The
pool has a copy of it, `src/stratum_pool.rs:1645–1750`, which nothing calls.
-/

namespace SilverPow.CpuMiner

open SilverPow.Base SilverPow.Work

/-- `U512`, `src/bin/cpu_miner_real.rs:13–20`. -/
structure U512 where
  part0 : U128
  part1 : U128
  part2 : U128
  part3 : U128
  deriving DecidableEq

namespace U512

/-- `u128::from_be_bytes` of the sixteen bytes from an index on. -/
def wordAt (bytes : Bytes) (start : Nat) : U128 :=
  BitVec.ofNat 128 (beNat ((bytes.drop start).take 16))

/-- `U512::from_bytes`, `src/bin/cpu_miner_real.rs:33–55`. -/
def fromBytes (hash : Digest) : U512 where
  part0 := wordAt hash.bytes 0
  part1 := wordAt hash.bytes 16
  part2 := wordAt hash.bytes 32
  part3 := wordAt hash.bytes 48

/-- `U512::max`, `src/bin/cpu_miner_real.rs:111–118`. -/
def max : U512 := ⟨BitVec.allOnes 128, BitVec.allOnes 128, BitVec.allOnes 128, BitVec.allOnes 128⟩

/-- The derived `<=`: the first words that differ decide. -/
def le (a b : U512) : Bool :=
  if a.part0 ≠ b.part0 then a.part0 < b.part0
  else if a.part1 ≠ b.part1 then a.part1 < b.part1
  else if a.part2 ≠ b.part2 then a.part2 < b.part2
  else a.part3 ≤ b.part3

/-- Where `div_u128` puts the quotient of the next word, `src/bin/cpu_miner_real.rs:90–104`. -/
def place (result : U512) (quotient : U128) : U512 :=
  if result.part0 = 0 ∧ result.part1 = 0 ∧ result.part2 = 0 then { result with part0 := quotient }
  else if result.part1 = 0 ∧ result.part2 = 0 then { result with part1 := quotient }
  else if result.part2 = 0 then { result with part2 := quotient }
  else { result with part3 := quotient }

/-- One round of `div_u128`, `src/bin/cpu_miner_real.rs:79–105`: the two halves of a word are
divided one after the other. -/
def divRound (divisor : U128) (state : U512 × U128) (part : U128) : U512 × U128 :=
  let (result, remainder) := state
  let combined := remainder <<< 64 ||| part >>> 64
  let qHigh := combined / divisor
  let remainder := combined % divisor
  let combinedLow := remainder <<< 64 ||| part &&& 0xFFFFFFFFFFFFFFFF
  let qLow := combinedLow / divisor
  (result.place (qHigh <<< 64 ||| qLow), combinedLow % divisor)

/-- `U512::div_u128`, `src/bin/cpu_miner_real.rs:59–108`. -/
def divU128 (a : U512) (divisor : U128) : U512 :=
  if divisor = 0 then max
  else ([a.part0, a.part1, a.part2, a.part3].foldl (divRound divisor) (⟨0, 0, 0, 0⟩, 0)).1

/-- The number that the words stand for. -/
def value (a : U512) : Nat :=
  ((a.part0.toNat * 2 ^ 128 + a.part1.toNat) * 2 ^ 128 + a.part2.toNat) * 2 ^ 128 + a.part3.toNat

theorem toNat_wordAt {bytes : Bytes} {start : Nat} (h : start + 16 ≤ bytes.length) :
    (wordAt bytes start).toNat = beNat ((bytes.drop start).take 16) := by
  have hl : ((bytes.drop start).take 16).length = 16 := by
    rw [List.length_take, List.length_drop]
    omega
  have hlt := beNat_lt ((bytes.drop start).take 16)
  rw [hl, show 256 ^ 16 = 2 ^ 128 from rfl] at hlt
  rw [wordAt, BitVec.toNat_ofNat, Nat.mod_eq_of_lt hlt]

/-- Value of a byte string from its first sixteen bytes and the others. -/
theorem beNat_drop {bytes : Bytes} (start rest : Nat) (h : bytes.length = start + 16 + rest) :
    beNat (bytes.drop start) =
      (wordAt bytes start).toNat * 256 ^ rest + beNat (bytes.drop (start + 16)) := by
  rw [toNat_wordAt (by omega)]
  conv_lhs => rw [← List.take_append_drop 16 (bytes.drop start), List.drop_drop]
  rw [beNat_append, List.length_drop, h, Nat.add_sub_cancel_left]

/-- The words of a hash stand for its big-endian value. -/
theorem value_fromBytes (hash : Digest) : (fromBytes hash).value = beNat hash.bytes := by
  have hl := hash.length_eq
  have h₀ := beNat_drop 0 48 hl
  have h₁ := beNat_drop 16 32 hl
  have h₂ := beNat_drop 32 16 hl
  have h₃ := beNat_drop 48 0 hl
  rw [show 48 + 16 = 64 from rfl, List.drop_of_length_le (Nat.le_of_eq hl)] at h₃
  rw [List.drop_zero] at h₀
  rw [h₀, h₁, h₂, h₃, value]
  simp only [fromBytes, beNat]
  omega

/-- The derived order is the order of the numbers. -/
theorem le_iff (a b : U512) : a.le b = true ↔ a.value ≤ b.value := by
  have h₁ := b.part1.isLt
  have h₂ := b.part2.isLt
  have h₃ := b.part3.isLt
  have h₁' := a.part1.isLt
  have h₂' := a.part2.isLt
  have h₃' := a.part3.isLt
  unfold le value
  simp only [← BitVec.toNat_inj, BitVec.lt_def, BitVec.le_def, ne_eq]
  split_ifs <;> rw [decide_eq_true_iff] <;> omega

end U512
end SilverPow.CpuMiner
