import Mathlib.Tactic.LinearCombination
import SilverPow.CpuMiner.MiningLoop

/-!
# The nonces of the mining threads

Threads start a quarter of the nonces apart, less one, whatever their number is. With five
threads the last one starts four nonces before the first, so their shares of the nonces
overlap; so do those of two or three threads, whose shares are larger than a quarter.
-/

namespace SilverPow.CpuMiner

open SilverPow.Base SilverPow.Work

/-- Whether a round gets to its hash. -/
def Round.reachesHash : Round → Bool
  | .reconnectionFailed => false
  | .hashes _ => true

namespace MinerThread

/-- The nonce a thread tries after `k` others. -/
def nonceAt (threadId : U64) (k : Nat) : U64 := firstNonce threadId + BitVec.ofNat 64 k

theorem nonceAt_succ (threadId : U64) (k : Nat) :
    nonceAt threadId (k + 1) = nonceAt threadId k + 1 := by
  rw [nonceAt, BitVec.ofNat_add, ← BitVec.add_assoc]
  rfl

variable (sha512 : Sha512)

/-- A thread hashes the nonces from its first one on, one after the other. -/
theorem tried_miningLoop (threadId : U64) (rounds : List Round) :
    let thread := miningLoop sha512 threadId rounds
    let n := rounds.countP Round.reachesHash
    thread.nonce = nonceAt threadId n ∧ thread.tried = (List.range n).map (nonceAt threadId) := by
  induction rounds using List.reverseRecOn with
  | nil => exact ⟨(BitVec.add_zero _).symm, rfl⟩
  | append_singleton rounds r ih =>
    obtain ⟨hn, ht⟩ := ih
    rw [miningLoop_concat, List.countP_append]
    cases r with
    | reconnectionFailed => exact ⟨hn, ht⟩
    | hashes answer =>
      rw [show List.countP Round.reachesHash [Round.hashes answer] = 1 from rfl]
      constructor
      · rw [nonceAt_succ, ← hn]
        rfl
      · rw [List.range_succ, List.map_append, ← ht, List.map_singleton, ← hn]
        rfl

/-- The first nonces of a run are the first ones of the thread. -/
theorem mem_take_tried {threadId : U64} {rounds : List Round} {n : Nat} {nonce : U64}
    (h : nonce ∈ (miningLoop sha512 threadId rounds).tried.take n) :
    ∃ k < n, nonce = nonceAt threadId k := by
  rw [(tried_miningLoop sha512 threadId rounds).2, ← List.map_take, List.take_range] at h
  obtain ⟨k, hk, rfl⟩ := List.mem_map.mp h
  exact ⟨k, (List.mem_range.mp hk).trans_le (Nat.min_le_left ..), rfl⟩

/-- A run that is long enough tries all of them. -/
theorem mem_take_tried_replicate (threadId : U64) {n k : Nat} (hk : k < n) :
    nonceAt threadId k ∈ (miningLoop sha512 threadId
      (List.replicate n (.hashes (.ok true)))).tried.take n := by
  have hn : (List.replicate n (Round.hashes (.ok true))).countP Round.reachesHash = n := by
    rw [List.countP_replicate]
    rfl
  rw [(tried_miningLoop sha512 threadId _).2, hn, List.take_of_length_le (by simp)]
  exact List.mem_map_of_mem (List.mem_range.mpr hk)

end MinerThread

/-- The nonces that a thread is to try: its part of all of them. -/
def nonceShare (threads : U64) : Nat := (2 ^ 64 - 1) / threads.toNat

/-- No nonce is among the first ones of two threads, whatever happens to them. -/
def NoRepeats (sha512 : Sha512) (threads : U64) : Prop :=
  ∀ i j, i < threads → j < threads → i ≠ j → ∀ rounds rounds',
    ((MinerThread.miningLoop sha512 i rounds).tried.take (nonceShare threads)).Disjoint
      ((MinerThread.miningLoop sha512 j rounds').tried.take (nonceShare threads))

open MinerThread

theorem noRepeats_iff_nonceAt (sha512 : Sha512) (threads : U64) :
    NoRepeats sha512 threads ↔
      ∀ i j, i < threads → j < threads → i ≠ j → ∀ a b, a < nonceShare threads →
        b < nonceShare threads → nonceAt i a ≠ nonceAt j b := by
  constructor
  · intro h i j hi hj hij a b ha hb heq
    apply h i j hi hj hij _ _ (mem_take_tried_replicate sha512 i ha)
    rw [heq]
    exact mem_take_tried_replicate sha512 j hb
  · intro h i j hi hj hij rounds rounds' nonce hm hm'
    obtain ⟨a, ha, rfl⟩ := mem_take_tried sha512 hm
    obtain ⟨b, hb, heq⟩ := mem_take_tried sha512 hm'
    exact h i j hi hj hij a b ha hb heq

/-- Two nonces agree exactly when their distances from zero do. -/
theorem nonceAt_eq_iff (i j : U64) (a b : Nat) :
    nonceAt i a = nonceAt j b ↔
      (i.toNat * 4611686018427387903 + a) % 18446744073709551616 =
        (j.toNat * 4611686018427387903 + b) % 18446744073709551616 := by
  have hfirst (k : U64) (n : Nat) :
      (nonceAt k n).toNat = (k.toNat * 4611686018427387903 + n) % 18446744073709551616 := by
    unfold nonceAt firstNonce
    rw [BitVec.toNat_add, BitVec.toNat_mul, BitVec.toNat_ofNat,
      show (BitVec.allOnes 64 / 4 : U64).toNat = 4611686018427387903 from rfl]
    omega
  rw [← BitVec.toNat_inj, hfirst, hfirst]

/-- Equal nonces: the distances between the threads and within their parts cancel. -/
theorem dvd_of_nonceAt_eq {i j : U64} {a b : Nat} (h : nonceAt i a = nonceAt j b) :
    (18446744073709551616 : Int) ∣
      ((i.toNat : Int) - j.toNat) * 4611686018427387903 + ((a : Int) - b) := by
  rw [nonceAt_eq_iff] at h
  omega

/-- `2 ^ 62 - 1` times `2 ^ 62 + 1` is minus one, so the distance within the parts determines
the distance of the threads. -/
theorem dvd_inverse {d e : Int} (h : (18446744073709551616 : Int) ∣ e * 4611686018427387903 + d) :
    (18446744073709551616 : Int) ∣ d * 4611686018427387905 - e := by
  obtain ⟨k, hk⟩ := h
  refine ⟨k * 4611686018427387905 - e * 1152921504606846976, ?_⟩
  linear_combination 4611686018427387905 * hk

/-- Up to three threads apart, nonces are at least a quarter apart. -/
theorem le_natAbs_of_threads {d e : Int}
    (h : (18446744073709551616 : Int) ∣ e * 4611686018427387903 + d) (he : e ≠ 0)
    (hle : e.natAbs ≤ 3) : 4611686018427387903 ≤ d.natAbs := by
  have hlo : -3 ≤ e := by omega
  have hhi : e ≤ 3 := by omega
  interval_cases e <;> omega

/-- With no nonces between them, threads are a whole round apart. -/
theorem le_natAbs_of_zero {d e : Int}
    (h : (18446744073709551616 : Int) ∣ d * 4611686018427387905 - e) (he : e ≠ 0)
    (hd : d.natAbs ≤ 0) : 2 ^ 64 ≤ e.natAbs := by
  have hz : d = 0 := by omega
  subst hz
  omega

/-- Up to two nonces apart, threads are more than `2 ^ 62` apart. -/
theorem le_natAbs_of_two {d e : Int}
    (h : (18446744073709551616 : Int) ∣ d * 4611686018427387905 - e) (he : e ≠ 0)
    (hle : d.natAbs ≤ 2) : 2 ^ 62 + 1 ≤ e.natAbs := by
  have hlo : -2 ≤ d := by omega
  have hhi : d ≤ 2 := by omega
  interval_cases d <;> omega

/-- Three nonces apart, threads are close to `2 ^ 62` apart. -/
theorem le_natAbs_of_three {d e : Int}
    (h : (18446744073709551616 : Int) ∣ d * 4611686018427387905 - e) (he : e ≠ 0)
    (hle : d.natAbs ≤ 3) : 2 ^ 62 - 3 ≤ e.natAbs := by
  have hlo : -3 ≤ d := by omega
  have hhi : d ≤ 3 := by omega
  interval_cases d <;> omega

/-- The numbers of threads whose parts do not overlap. -/
def Separated (threads : Nat) : Prop :=
  threads = 1 ∨ threads = 4 ∨ 3689348814741910324 ≤ threads ∧ threads ≤ 2 ^ 62 - 3 ∨
    threads = 2 ^ 62 ∨ threads = 2 ^ 62 + 1 ∨ 2 ^ 63 ≤ threads

theorem lt_nonceShare {threads : U64} {n : Nat} (ht : 0 < threads.toNat)
    (h : (n + 1) * threads.toNat ≤ 2 ^ 64 - 1) : n < nonceShare threads :=
  (Nat.le_div_iff_mul_le ht).mpr h

theorem nonceShare_lt {threads : U64} {n : Nat} (h : 2 ^ 64 - 1 < threads.toNat * n) :
    nonceShare threads < n :=
  Nat.div_lt_of_lt_mul h

/-- The parts of a separated number of threads do not meet: with four threads they are a
quarter each, and with many they are at most four nonces long. -/
theorem nonceAt_ne_of_separated {threads i j : U64} {a b : Nat}
    (hs : Separated threads.toNat) (hi : i < threads) (hj : j < threads) (hij : i ≠ j)
    (ha : a < nonceShare threads) (hb : b < nonceShare threads) : nonceAt i a ≠ nonceAt j b := by
  intro h
  have hne : (i.toNat : Int) - j.toNat ≠ 0 := by
    rw [ne_eq, ← BitVec.toNat_inj] at hij
    omega
  rw [BitVec.lt_def] at hi hj
  obtain hs | hs | ⟨hlo, hhi⟩ | hs | hs | hs := hs
  · omega
  · have hn : nonceShare threads < 4611686018427387904 := nonceShare_lt (by omega)
    have hfar := le_natAbs_of_threads (dvd_of_nonceAt_eq h) hne (by omega)
    omega
  · have hn : nonceShare threads < 5 := nonceShare_lt (by omega)
    have hfar := le_natAbs_of_three (dvd_inverse (dvd_of_nonceAt_eq h)) hne (by omega)
    omega
  · have hn : nonceShare threads < 4 := nonceShare_lt (by omega)
    have hfar := le_natAbs_of_two (dvd_inverse (dvd_of_nonceAt_eq h)) hne (by omega)
    omega
  · have hn : nonceShare threads < 4 := nonceShare_lt (by omega)
    have hfar := le_natAbs_of_two (dvd_inverse (dvd_of_nonceAt_eq h)) hne (by omega)
    omega
  · have hn : nonceShare threads < 2 := nonceShare_lt (by omega)
    have hfar := le_natAbs_of_zero (dvd_inverse (dvd_of_nonceAt_eq h)) hne (by omega)
    have hi' := i.isLt
    have hj' := j.isLt
    omega

/-- A nonce that the first thread and another one both try. -/
theorem not_noRepeats (sha512 : Sha512) {threads : U64} (j : Nat) {a b : Nat}
    (hj : j < threads.toNat) (h0 : 0 < j) (ha : (a + 1) * threads.toNat ≤ 2 ^ 64 - 1)
    (hb : (b + 1) * threads.toNat ≤ 2 ^ 64 - 1)
    (h : nonceAt 0 a = nonceAt (BitVec.ofNat 64 j) b) : ¬NoRepeats sha512 threads := by
  have htoNat : (BitVec.ofNat 64 j).toNat = j := by
    rw [BitVec.toNat_ofNat, Nat.mod_eq_of_lt (hj.trans threads.isLt)]
  have hpos : 0 < threads.toNat := h0.trans hj
  have hne : 0 ≠ BitVec.ofNat 64 j := by
    rw [ne_eq, ← BitVec.toNat_inj, htoNat]
    exact h0.ne
  have hlt : BitVec.ofNat 64 j < threads := by
    rw [BitVec.lt_def, htoNat]
    exact hj
  intro hn
  exact (noRepeats_iff_nonceAt sha512 threads).mp hn 0 _ (BitVec.lt_def.mpr hpos) hlt hne a b
    (lt_nonceShare hpos ha) (lt_nonceShare hpos hb) h

/-- Parts overlap for all other numbers of threads: the first part with the second, with the
fifth, which starts four nonces before it, or with one that starts next to it after many
others. -/
theorem not_noRepeats_of_not_separated (sha512 : Sha512) {threads : U64} (ht : 1 ≤ threads)
    (hs : ¬Separated threads.toNat) : ¬NoRepeats sha512 threads := by
  have hpos : 0 < threads.toNat := BitVec.le_def.mp ht
  unfold Separated at hs
  by_cases h₁ : threads.toNat ≤ 3
  · exact not_noRepeats sha512 1 (a := 4611686018427387903) (b := 0) (by omega) (by omega)
      (by omega) (by omega) rfl
  by_cases h₂ : threads.toNat ≤ 3689348814741910323
  · exact not_noRepeats sha512 4 (a := 0) (b := 4) (by omega) (by omega) (by omega) (by omega) rfl
  by_cases h₃ : threads.toNat < 2 ^ 62
  · exact not_noRepeats sha512 4611686018427387901 (a := 3) (b := 0) (by omega) (by omega)
      (by omega) (by omega) rfl
  · exact not_noRepeats sha512 4611686018427387905 (a := 0) (b := 1) (by omega) (by omega)
      (by omega) (by omega) rfl

/-- The parts of the threads are disjoint in every run exactly for four threads, for one, and
for numbers so large that a part has at most four nonces. -/
theorem noRepeats_iff_separated (sha512 : Sha512) (threads : U64) (ht : 1 ≤ threads) :
    NoRepeats sha512 threads ↔ Separated threads.toNat := by
  constructor
  · intro h
    by_contra hs
    exact not_noRepeats_of_not_separated sha512 ht hs h
  · intro hs
    apply (noRepeats_iff_nonceAt sha512 threads).mpr
    intro i j hi hj hij a b ha hb
    exact nonceAt_ne_of_separated hs hi hj hij ha hb

theorem four_threads_no_repeats : NoRepeats Stratum.sampleCrates.sha512 4 :=
  (noRepeats_iff_separated _ 4 (by decide)).mpr (.inr (.inl rfl))

/-- Of two threads, the first reaches the start of the second within its half. -/
theorem two_threads_repeat :
    ¬∀ threads : U64, 1 ≤ threads → NoRepeats Stratum.sampleCrates.sha512 threads := by
  intro h
  exact not_noRepeats _ 1 (a := 4611686018427387903) (b := 0) (by decide) (by decide) (by decide)
    (by decide) rfl (h 2 (by decide))

end SilverPow.CpuMiner
