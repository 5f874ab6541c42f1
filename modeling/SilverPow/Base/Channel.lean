import Mathlib.Algebra.Order.Group.Nat
import Mathlib.Data.List.Basic
import Mathlib.Data.List.Flatten

/-!
# A broadcast channel that keeps the latest values

The values of a channel are numbered in the order in which they are sent, and the channel keeps
only the latest of them. A receiver has the number of its next value. When that value is no
longer kept, the receiver skips to the oldest one that is, and learns how many it has missed.
What a receiver does between two values has no influence on this, so its log of values that it
got and values that it missed follows the values sent, one after another.
-/

namespace SilverPow.Base

variable {A : Type}

/-- What a receiver is given: its next value, or the number of values that it has missed. -/
inductive Received (A : Type) where
  | value (a : A)
  | lagged (missed : Nat)
  deriving DecidableEq

/-- A receiver takes its next value from a channel that keeps the latest `kept` values, and
moves on; `none` when it has to wait for one. -/
def recv (kept : Nat) (sent : List A) (next : Nat) : Option (Received A × Nat) :=
  if next + kept < sent.length then
    some (.lagged (sent.length - kept - next), sent.length - kept)
  else sent[next]?.map fun a ↦ (.value a, next + 1)

/-- An entry of a receiver's log: a value that it got, or values that it missed at once. -/
inductive Reading (A : Type) where
  | got (a : A)
  | missed (as : List A)

namespace Reading

/-- The values that an entry is about. -/
def values : Reading A → List A
  | got a => [a]
  | missed as => as

/-- The value that a receiver got. -/
def value : Reading A → Option A
  | got a => some a
  | missed _ => none

end Reading

/-- The log of a receiver that started at one number and has come to another: it is about the
values in between, in order, and the values missed at once are some, and had been followed by
all that the channel keeps. -/
structure Reads (kept : Nat) (sent : List A) (start next : Nat) (log : List (Reading A)) :
    Prop where
  start_le : start ≤ next
  next_le : next ≤ sent.length
  values : log.flatMap Reading.values = (sent.take next).drop start
  overtaken : ∀ front as back, log = front ++ .missed as :: back → as ≠ [] ∧
    start + (front.flatMap Reading.values).length + as.length + kept ≤ sent.length

section Receive

variable {kept start next next' : Nat} {sent : List A} {log : List (Reading A)}

/-- A value that a receiver is given is its next one. -/
theorem recv_value {a : A} (h : recv kept sent next = some (.value a, next')) :
    sent[next]? = some a ∧ next' = next + 1 := by
  unfold recv at h
  split at h
  · cases h
  · obtain ⟨b, hb, he⟩ := Option.map_eq_some_iff.mp h
    cases he
    exact ⟨hb, rfl⟩

/-- A receiver that has missed values moves to the oldest one that is kept. -/
theorem recv_lagged {missed : Nat} (h : recv kept sent next = some (.lagged missed, next')) :
    next < next' ∧ next' + kept = sent.length ∧ missed = next' - next := by
  unfold recv at h
  split at h
  · next hlt =>
    cases h
    omega
  · obtain ⟨b, -, he⟩ := Option.map_eq_some_iff.mp h
    cases he

/-- The values up to one number are those up to another and the ones in between. -/
theorem drop_take_append (hs : start ≤ next) (hn : next ≤ next') (hl : next' ≤ sent.length) :
    (sent.take next).drop start ++ (sent.take next').drop next = (sent.take next').drop start := by
  have hsplit := List.take_append_drop next (sent.take next')
  rw [List.take_take, Nat.min_eq_left hn] at hsplit
  have hstart : start ≤ (sent.take next).length := by
    rw [List.length_take]
    omega
  conv_rhs => rw [← hsplit, List.drop_append_of_le_length hstart]

namespace Reads

/-- A receiver has no log when it starts. -/
theorem nil (h : start ≤ sent.length) : Reads kept sent start start [] where
  start_le := Nat.le_refl _
  next_le := h
  values := by
    rw [List.flatMap_nil, List.drop_eq_nil_of_le]
    exact (List.length_take_le _ _)
  overtaken _ _ _ he := by
    cases (List.nil_eq_append_iff.mp he).2

/-- Sending a value leaves the log right. -/
theorem send (h : Reads kept sent start next log) (a : A) :
    Reads kept (sent ++ [a]) start next log where
  start_le := h.start_le
  next_le := h.next_le.trans (by simp)
  values := by rw [h.values, List.take_append_of_le_length h.next_le]
  overtaken front as back he := by
    obtain ⟨hne, hle⟩ := h.overtaken front as back he
    refine ⟨hne, hle.trans ?_⟩
    simp

/-- An entry is added for the values up to a new number. -/
theorem concat (h : Reads kept sent start next log) {reading : Reading A} (hn : next ≤ next')
    (hl : next' ≤ sent.length) (hv : reading.values = (sent.take next').drop next)
    (hm : ∀ as, reading = .missed as → as ≠ [] ∧ next' + kept ≤ sent.length) :
    Reads kept sent start next' (log ++ [reading]) where
  start_le := h.start_le.trans hn
  next_le := hl
  values := by
    rw [List.flatMap_append, h.values, List.flatMap_cons, List.flatMap_nil, List.append_nil, hv,
      drop_take_append h.start_le hn hl]
  overtaken front as back he := by
    -- The entry is the last one, or it was there before.
    obtain ⟨back', rfl⟩ | ⟨rfl, rfl, rfl⟩ : (∃ back', back = back' ++ [reading]) ∨
        (front = log ∧ reading = .missed as ∧ back = []) := by
      rcases List.eq_nil_or_concat back with rfl | ⟨back', last, rfl⟩
      · obtain ⟨hlog, hr⟩ := List.append_inj' he rfl
        cases hr
        exact .inr ⟨hlog.symm, rfl, rfl⟩
      · rw [List.concat_eq_append, ← List.cons_append, ← List.append_assoc] at he
        obtain ⟨-, hr⟩ := List.append_inj' he rfl
        cases hr
        exact .inl ⟨back', List.concat_eq_append⟩
    · rw [← List.cons_append, ← List.append_assoc] at he
      exact h.overtaken front as back' (List.append_cancel_right he)
    · obtain ⟨hne, hle⟩ := hm as rfl
      refine ⟨hne, le_trans ?_ hle⟩
      have hlen := congrArg List.length hv
      have hfront := congrArg List.length h.values
      rw [Reading.values] at hlen
      simp only [List.length_drop, List.length_take] at hlen hfront
      have := h.start_le
      have := h.next_le
      omega

/-- Receiving a value adds it to the log. -/
theorem recv_value (h : Reads kept sent start next log) {a : A}
    (hr : recv kept sent next = some (.value a, next')) :
    Reads kept sent start next' (log ++ [.got a]) := by
  obtain ⟨ha, rfl⟩ := Base.recv_value hr
  obtain ⟨hlt, rfl⟩ := List.getElem?_eq_some_iff.mp ha
  apply h.concat (Nat.le_succ _) hlt
  · rw [Reading.values, List.take_succ_eq_append_getElem hlt, List.drop_append_of_le_length
      (by rw [List.length_take]; omega), List.drop_eq_nil_of_le (List.length_take_le _ _),
      List.nil_append]
  · intro as he
    cases he

/-- Missing values adds them to the log. -/
theorem recv_lagged (h : Reads kept sent start next log) {missed : Nat}
    (hr : recv kept sent next = some (.lagged missed, next')) :
    Reads kept sent start next' (log ++ [.missed ((sent.take next').drop next)]) := by
  obtain ⟨hlt, hkept, -⟩ := Base.recv_lagged hr
  apply h.concat hlt.le (by omega) rfl
  rintro _ ⟨rfl⟩
  refine ⟨?_, hkept.le⟩
  apply List.ne_nil_of_length_pos
  rw [List.length_drop, List.length_take]
  omega

/-- Without values missed, the log has all the values up to the next one. -/
theorem values_eq (h : Reads kept sent start next log) (hm : ∀ as, .missed as ∉ log) :
    log.filterMap Reading.value = (sent.take next).drop start := by
  rw [← h.values, List.filterMap_eq_flatMap_toList]
  apply List.flatMap_congr
  intro reading hr
  cases reading with
  | got a => rfl
  | missed as => exact absurd hr (hm as)

end Reads
end Receive
end SilverPow.Base
