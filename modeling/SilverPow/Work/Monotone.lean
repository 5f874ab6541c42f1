import SilverPow.Work.Package

/-!
# Targets that grow with the difficulty

`WorkPackage::calculate_target_from_difficulty` clears 64 bits less the logarithm of the
difficulty at the low end of the largest target and shifts the byte above them. Fewer bits are
cleared for a higher difficulty, so each doubling of the difficulty up to `2 ^ 57` raises the
target, and from there on every hash meets it.
-/

namespace SilverPow.Work

open SilverPow.Base

namespace WorkPackage

/-- The difficulty `high` has no higher target than `low`, so that a hash accepted at `high`
is accepted at `low`. -/
def NeverEasier (low high : U64) : Prop :=
  ∃ lowTarget highTarget, calculateTargetFromDifficulty low = .ok lowTarget ∧
    calculateTargetFromDifficulty high = .ok highTarget ∧
    sliceLe highTarget lowTarget = true ∧
    ∀ hash, sliceLe hash highTarget = true → sliceLe hash lowTarget = true

/-- One doubling of the difficulty raises the target. -/
theorem shiftedTarget_succ : ∀ l < 57, 0 < l →
    sliceLe (shiftedTarget (64 - (l + 1))) (shiftedTarget (64 - l)) = false := by
  decide +kernel

/-- From `2 ^ 57` on, nothing is cleared. -/
theorem shiftedTarget_high {l : Nat} (hl : 57 ≤ l) :
    shiftedTarget (64 - l) = List.replicate 64 0xFF := by
  have hzero : (64 - l) / 8 = 0 := Nat.div_eq_of_lt (by omega)
  unfold shiftedTarget
  rw [hzero]
  rfl

theorem beNat_shiftedTarget_succ {l : Nat} (h0 : 0 < l) (hl : l < 57) :
    beNat (shiftedTarget (64 - l)) < beNat (shiftedTarget (64 - (l + 1))) := by
  have hs := shiftedTarget_succ l hl h0
  rw [← Bool.not_eq_true,
    sliceLe_iff ((length_shiftedTarget _).trans (length_shiftedTarget _).symm)] at hs
  omega

/-- Up to `2 ^ 57`, a higher power of two has a higher target. -/
theorem beNat_shiftedTarget_lt {l l' : Nat} (h0 : 0 < l) (hlt : l < l') (hl' : l' ≤ 57) :
    beNat (shiftedTarget (64 - l)) < beNat (shiftedTarget (64 - l')) := by
  induction l', hlt using Nat.le_induction with
  | base => exact beNat_shiftedTarget_succ h0 hl'
  | succ n hn ih => exact (ih (by omega)).trans (beNat_shiftedTarget_succ (by omega) hl')

/-- With different powers of two below them, the higher difficulty has the higher target
until the targets stop growing. -/
theorem sliceLe_shiftedTarget_iff {l l' : Nat} (h0 : 0 < l) (hle : l ≤ l') :
    sliceLe (shiftedTarget (64 - l')) (shiftedTarget (64 - l)) = true ↔ l = l' ∨ 57 ≤ l := by
  rw [sliceLe_iff ((length_shiftedTarget _).trans (length_shiftedTarget _).symm)]
  by_cases heq : l = l'
  · simp [heq]
  by_cases hhigh : 57 ≤ l
  · rw [shiftedTarget_high hhigh, shiftedTarget_high (hhigh.trans hle)]
    simp [hhigh]
  · -- Above `2 ^ 57` the target is the one of `2 ^ 57`.
    have hcap : beNat (shiftedTarget (64 - l')) = beNat (shiftedTarget (64 - min l' 57)) := by
      by_cases h57 : l' ≤ 57
      · rw [Nat.min_eq_left h57]
      · rw [Nat.min_eq_right (by omega), shiftedTarget_high (show 57 ≤ l' by omega),
          shiftedTarget_high le_rfl]
    have hlt := beNat_shiftedTarget_lt h0 (show l < min l' 57 by omega) (Nat.min_le_right _ _)
    omega

theorem calculateTargetFromDifficulty_of_one_lt {difficulty : U64} (h : 1 < difficulty) :
    calculateTargetFromDifficulty difficulty =
      .ok (shiftedTarget (64 - log2Floor difficulty)) := by
  rw [calculateTargetFromDifficulty, if_neg (Word.ne_zero_of_lt h), if_pos h]

theorem calculateTargetFromDifficulty_one :
    calculateTargetFromDifficulty 1 = .ok (List.replicate 64 0xFF) := rfl

/-- What is compared is the order of the targets. -/
theorem neverEasier_of_targets {low high : U64} {lowTarget highTarget : Bytes}
    (hl : calculateTargetFromDifficulty low = .ok lowTarget)
    (hh : calculateTargetFromDifficulty high = .ok highTarget) :
    NeverEasier low high ↔ sliceLe highTarget lowTarget = true := by
  constructor
  · rintro ⟨lowTarget', highTarget', hl', hh', hle, -⟩
    cases hl.symm.trans hl'
    cases hh.symm.trans hh'
    exact hle
  · intro hle
    exact ⟨lowTarget, highTarget, hl, hh, hle, fun _ h ↦ sliceLe_trans h hle⟩

/-- No target is above that of difficulty one. -/
theorem neverEasier_one {high : U64} (h : high ≠ 0) : NeverEasier 1 high := by
  obtain ⟨highTarget, hh, hlen, -⟩ := calculateTargetFromDifficulty_of_ne_zero h
  apply (neverEasier_of_targets calculateTargetFromDifficulty_one hh).mpr
  have hlt := beNat_lt highTarget
  have hones := beNat_ones 64
  rw [sliceLe_iff (by rw [hlen, List.length_replicate])]
  rw [hlen] at hlt
  omega

/-- The higher of two difficulties is never the easier one exactly when the lower one is one,
when the same power of two is below both, or when both are at least `2 ^ 57`. -/
theorem neverEasier_iff (low high : U64) (h1 : 1 ≤ low) (hle : low ≤ high) :
    NeverEasier low high ↔
      low = 1 ∨ log2Floor low = log2Floor high ∨ 2 ^ 57 ≤ low.toNat := by
  by_cases hone : low = 1
  · subst hone
    exact ⟨fun _ ↦ .inl rfl, fun _ ↦ neverEasier_one (Word.ne_zero_of_le (by decide) hle)⟩
  · rw [BitVec.le_def] at h1 hle
    rw [show (1 : U64).toNat = 1 from rfl] at h1
    have hlow : 1 < low := by
      rw [BitVec.lt_def]
      rw [← BitVec.toNat_inj] at hone
      exact lt_of_le_of_ne h1 (Ne.symm hone)
    have hhigh : 1 < high := BitVec.lt_def.mpr (Nat.lt_of_lt_of_le (BitVec.lt_def.mp hlow) hle)
    have hl0 : 0 < log2Floor low := (Nat.le_log2 (by omega)).mpr (BitVec.lt_def.mp hlow)
    have hmono : log2Floor low ≤ log2Floor high :=
      (Nat.le_log2 (by omega)).mpr ((Nat.log2_self_le (by omega)).trans hle)
    rw [neverEasier_of_targets (calculateTargetFromDifficulty_of_one_lt hlow)
      (calculateTargetFromDifficulty_of_one_lt hhigh),
      sliceLe_shiftedTarget_iff hl0 hmono, or_iff_right hone,
      ← Nat.le_log2 (show low.toNat ≠ 0 by omega)]
    rfl

/-- The same power of two is below two and three. -/
theorem neverEasier_two_three : NeverEasier 2 3 :=
  (neverEasier_iff 2 3 (by decide) (by decide)).mpr (.inr (.inl (by decide)))

/-- Difficulty four has a higher target than difficulty two. -/
theorem two_harder_than_four :
    ¬∀ low high : U64, 1 ≤ low → low ≤ high → NeverEasier low high := by
  intro h
  obtain ⟨lowTarget, highTarget, hl, hh, hle, -⟩ := h 2 4 (by decide) (by decide)
  have hsucc := shiftedTarget_succ 1 (by omega) (by omega)
  cases hl
  cases hh
  rw [← Bool.not_eq_true] at hsucc
  exact hsucc hle

end WorkPackage
end SilverPow.Work
