import Mathlib.Data.List.DropRight
import Mathlib.Data.List.Infix

/-!
# What stands before the entries of a log

A log lists what happened, first things first. Such a property says what has to stand in
the log before an entry, and it is read off piecewise, as the log was written.
-/

namespace SilverPow.Base.Log

variable {A B : Type}

/-! ### Each entry with the entries before it -/

/-- Each entry of a log stands in a relation to the entries before it. -/
def Each (Q : List A → A → Prop) (log : List A) : Prop :=
  ∀ front x back, log = front ++ x :: back → Q front x

variable {Q : List A → A → Prop}

/-- A log without entries. -/
@[simp] theorem each_nil : Each Q [] := by
  intro front x back h
  simp at h

/-- The first entry, and the others after it. -/
theorem each_cons {x : A} {log : List A} :
    Each Q (x :: log) ↔ Q [] x ∧ Each (fun front ↦ Q (x :: front)) log := by
  constructor
  · intro h
    constructor
    · exact h [] x log rfl
    · intro front y back he
      apply h (x :: front) y back
      rw [he, List.cons_append]
  · rintro ⟨hx, h⟩ front y back he
    cases front with
    | nil =>
      cases he
      exact hx
    | cons z front =>
      obtain ⟨rfl, hlog⟩ := List.cons.inj he
      exact h front y back hlog

/-- Two logs one after the other. -/
theorem each_append {log log' : List A} :
    Each Q (log ++ log') ↔ Each Q log ∧ Each (fun front ↦ Q (log ++ front)) log' := by
  induction log generalizing Q with
  | nil => simp
  | cons x log ih => rw [List.cons_append, each_cons, each_cons, ih, and_assoc]; rfl

/-- One more entry. -/
theorem each_concat {log : List A} {x : A} : Each Q (log ++ [x]) ↔ Each Q log ∧ Q log x := by
  rw [each_append, each_cons, List.append_nil]
  simp

/-- A relation that does not depend on what came before. -/
theorem each_of_forall {log : List A} (h : ∀ x ∈ log, ∀ front, Q front x) : Each Q log := by
  rintro front x back rfl
  apply h
  simp

/-- An entry in the middle that no later entry asks about. -/
theorem each_insert {log log' : List A} {x : A} (hx : Q log x)
    (h : ∀ front y, Q (log ++ x :: front) y ↔ Q (log ++ front) y) :
    Each Q (log ++ x :: log') ↔ Each Q (log ++ log') := by
  have hsame : (fun front ↦ Q (log ++ x :: front)) = fun front ↦ Q (log ++ front) := by
    funext front y
    exact propext (h front y)
  rw [each_append, each_append, each_cons, List.append_nil, hsame, and_iff_right hx]

/-! ### The latest mark -/

/-- The latest entry that is a mark, with the entries after it. -/
def latest (mark : A → Option B) : List A → Option (B × List A)
  | [] => none
  | x :: log => (latest mark log).or ((mark x).map (·, log))

variable {mark : A → Option B}

/-- A log without marks. -/
theorem latest_eq_none {log : List A} (h : ∀ x ∈ log, mark x = none) : latest mark log = none := by
  induction log with
  | nil => rfl
  | cons x log ih =>
    rw [List.forall_mem_cons] at h
    rw [latest, ih h.2, h.1]
    rfl

/-- Entries that are no marks come after the latest mark. -/
theorem latest_append {log log' : List A} (h : ∀ x ∈ log', mark x = none) :
    latest mark (log ++ log') = (latest mark log).map fun (b, since) ↦ (b, since ++ log') := by
  induction log with
  | nil => exact latest_eq_none h
  | cons x log ih =>
    rw [List.cons_append, latest, latest, ih]
    cases latest mark log with
    | none => cases mark x <;> rfl
    | some found => rfl

/-- A mark at the end is the latest. -/
theorem latest_concat {log : List A} {x : A} {b : B} (h : mark x = some b) :
    latest mark (log ++ [x]) = some (b, []) := by
  induction log with
  | nil => simp [latest, h]
  | cons y log ih =>
    rw [List.cons_append, latest, ih]
    rfl

/-! ### The last entries -/

/-- Remove first entries while there are more than `limit`. -/
def trim (limit : Nat) : List A → List A
  | [] => []
  | x :: log => if limit < log.length + 1 then trim limit log else x :: log

/-- Trimming leaves the last entries. -/
theorem trim_eq_rtake (limit : Nat) (log : List A) : trim limit log = log.rtake limit := by
  induction log with
  | nil => simp [trim]
  | cons x log ih =>
    unfold trim
    split
    · next h =>
      rw [ih, List.rtake, List.rtake, List.length_cons, Nat.sub_add_comm (by omega),
        List.drop_succ_cons]
    · next h =>
      rw [List.rtake, List.length_cons, Nat.sub_eq_zero_of_le (by omega), List.drop_zero]

/-- Where the last entries are kept, one more entry leaves the last entries again. -/
theorem rtake_rtake_concat (limit : Nat) (log : List A) (x : A) :
    (log.rtake limit ++ [x]).rtake limit = (log ++ [x]).rtake limit := by
  cases limit with
  | zero => simp
  | succ limit =>
    have hmin : (log.rtake (limit + 1)).rtake limit = log.rtake limit := by
      simp only [List.rtake_eq_reverse_take_reverse, List.reverse_reverse, List.take_take]
      rw [Nat.min_eq_left (Nat.le_succ limit)]
    rw [List.rtake_concat_succ, List.rtake_concat_succ, hmin]

end SilverPow.Base.Log
