import Mathlib.Data.List.Basic
import Mathlib.Order.Basic

/-!
# Moments and windows of time

A window is a half-open interval of a fixed width. Where windows follow each other without
overlap and each holds a bounded number of moments, any interval of that width meets at most
two of them, and so holds at most twice as many.
-/

namespace SilverPow.Base

/-- The number of moments from `a` on and before `b`. -/
def countIn (times : List Nat) (a b : Nat) : Nat := times.countP fun t ↦ a ≤ t ∧ t < b

section CountIn

variable {times : List Nat} {a b c x : Nat}

@[simp] theorem countIn_nil : countIn [] a b = 0 := rfl

/-- One more moment. -/
theorem countIn_concat :
    countIn (times ++ [x]) a b = countIn times a b + if a ≤ x ∧ x < b then 1 else 0 := by
  simp [countIn, List.countP_append, List.countP_singleton]

/-- An interval without moments. -/
theorem countIn_eq_zero (h : ∀ t ∈ times, t < a ∨ b ≤ t) : countIn times a b = 0 := by
  apply List.countP_eq_zero.mpr
  intro t ht
  have := h t ht
  simp only [decide_eq_true_eq]
  omega

/-- A part of an interval holds at most the moments of the whole. -/
theorem countIn_le_of_forall {a' b' : Nat} (h : ∀ t ∈ times, a ≤ t → t < b → a' ≤ t ∧ t < b') :
    countIn times a b ≤ countIn times a' b' := by
  apply List.countP_mono_left
  intro t ht hab
  simp only [decide_eq_true_eq] at hab ⊢
  exact h t ht hab.1 hab.2

/-- An interval cut in two. -/
theorem countIn_le_add : countIn times a c ≤ countIn times a b + countIn times b c := by
  induction times with
  | nil => simp
  | cons t times ih =>
    simp only [countIn, List.countP_cons, decide_eq_true_eq] at ih ⊢
    split_ifs <;> omega

end CountIn

/-- Moments in windows: the current window starts at `start`, no moment is after it, and both
it and the interval just before it hold at most `limit` moments. -/
structure Tiled (width limit start : Nat) (times : List Nat) : Prop where
  current : countIn times start (start + width) ≤ limit
  before : countIn times (start - width) start ≤ limit
  ended : ∀ t ∈ times, t < start + width
  bound : ∀ t, countIn times t (t + width) ≤ 2 * limit

namespace Tiled

variable {width limit start x : Nat} {times : List Nat}

/-- No moments. -/
theorem nil : Tiled width limit start [] where
  current := Nat.zero_le _
  before := Nat.zero_le _
  ended := by simp
  bound t := Nat.zero_le _

/-- A new window starts when the current one has passed. -/
theorem restart (h : Tiled width limit start times) (hx : start + width ≤ x) :
    Tiled width limit x times where
  current := by
    rw [countIn_eq_zero]
    · exact Nat.zero_le _
    · intro t ht
      have := h.ended t ht
      omega
  before := by
    apply Nat.le_trans _ h.current
    apply countIn_le_of_forall
    intro t ht _ _
    have := h.ended t ht
    omega
  ended := by
    intro t ht
    have := h.ended t ht
    omega
  bound := h.bound

/-- One more moment in the current window. -/
theorem concat (h : Tiled width limit start times) (hs : start ≤ x) (hx : x < start + width)
    (hroom : countIn times start (start + width) < limit) :
    Tiled width limit start (times ++ [x]) where
  current := by
    rw [countIn_concat, if_pos ⟨hs, hx⟩]
    exact hroom
  before := by
    rw [countIn_concat, if_neg (by omega)]
    exact h.before
  ended := by
    intro t ht
    rw [List.mem_append, List.mem_singleton] at ht
    obtain ht | rfl := ht
    · exact h.ended t ht
    · exact hx
  bound := by
    intro t
    rw [countIn_concat]
    split
    · next ht =>
      -- An interval with the new moment starts after the interval before the window.
      have hcut : countIn times t (t + width) ≤
          countIn times (start - width) start + countIn times start (start + width) := by
        apply Nat.le_trans _ countIn_le_add
        apply countIn_le_of_forall
        intro u hu _ _
        have := h.ended u hu
        omega
      have := h.before
      omega
    · exact h.bound t

end Tiled
end SilverPow.Base
