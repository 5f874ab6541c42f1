import Mathlib.Logic.Function.Basic
import SilverPow.Base.Run

/-!
# Calls that share locked data

Calls run side by side and share data in pieces, each behind a readers-writer lock. A call is
a program that takes and gives back locks and reads and writes the pieces that it holds; what
it still holds when it returns, it then gives back. A call that asks for a lock queues up
there, and only the first of a queue is served, whatever it waits for: a waiting writer holds
up the readers behind it.
-/

namespace SilverPow.Base

/-- The two ways of holding a lock. -/
inductive LockMode where
  | read
  | write
  deriving DecidableEq

/-- Two calls may hold a lock at the same time only for reading. -/
def LockMode.Shares (m m' : LockMode) : Prop := m = .read ∧ m' = .read

instance (m m' : LockMode) : Decidable (m.Shares m') := inferInstanceAs (Decidable (_ ∧ _))

/-- Sharing a lock is symmetric. -/
theorem LockMode.Shares.symm {m m' : LockMode} (h : m.Shares m') : m'.Shares m := And.symm h

/-- Nobody else holds a lock that is held for writing. -/
@[simp] theorem LockMode.not_write_shares (m : LockMode) : ¬LockMode.write.Shares m :=
  fun h ↦ nomatch h.1

/-- Nobody else holds a lock that is held for writing. -/
@[simp] theorem LockMode.not_shares_write (m : LockMode) : ¬m.Shares .write :=
  fun h ↦ nomatch h.2

/-- The program of a call: `L` are the locks, `D` what they guard and `A` the results. -/
inductive Prog (L : Type) (D : L → Type) (A : Type) where
  | ret (a : A)
  | lock (l : L) (m : LockMode) (next : Prog L D A)
  | unlock (l : L) (next : Prog L D A)
  | get (l : L) (next : D l → Prog L D A)
  | set (l : L) (d : D l) (next : Prog L D A)

namespace Prog

variable {L : Type} {D : L → Type} {A B : Type}

/-- A program that goes on with the result of another one. -/
def bind : Prog L D A → (A → Prog L D B) → Prog L D B
  | .ret a, f => f a
  | .lock l m p, f => .lock l m (p.bind f)
  | .unlock l p, f => .unlock l (p.bind f)
  | .get l p, f => .get l fun d ↦ (p d).bind f
  | .set l d p, f => .set l d (p.bind f)

/-- What a program does and returns when it runs alone. -/
def exec [DecidableEq L] : Prog L D A → (∀ l, D l) → A × (∀ l, D l)
  | .ret a, data => (a, data)
  | .lock _ _ p, data => p.exec data
  | .unlock _ p, data => p.exec data
  | .get l p, data => (p (data l)).exec data
  | .set l d p, data => p.exec (Function.update data l d)

end Prog

/-- A call on its way: what is left of its program, the locks that it holds, the latest first,
and whether it waits for the lock that comes next. -/
structure Task (L : Type) (D : L → Type) (A : Type) where
  prog : Prog L D A
  held : List (L × LockMode)
  waiting : Bool

/-- The calls on their way, the data that they share and those who wait at each lock. -/
structure Executor (L : Type) (D : L → Type) (A : Type) where
  data : ∀ l, D l
  tasks : List (Task L D A)
  queue : L → List Nat

namespace Executor

variable {L : Type} {D : L → Type} {A : Type}

/-- Calls that have not begun. -/
def start (data : ∀ l, D l) (progs : List (Prog L D A)) : Executor L D A :=
  ⟨data, progs.map (⟨·, [], false⟩), fun _ ↦ []⟩

/-- A call that has not begun. -/
theorem getElem?_start {progs : List (Prog L D A)} {i : Nat} {p : Prog L D A}
    (h : progs[i]? = some p) (data : ∀ l, D l) :
    (start data progs).tasks[i]? = some ⟨p, [], false⟩ := by
  rw [start, List.getElem?_map, h]
  rfl

/-- The program of a call. -/
theorem getElem?_progs {C : Type} {calls : List C} {i : Nat} {c : C} (h : calls[i]? = some c)
    (prog : C → Prog L D A) : (calls.map prog)[i]? = some (prog c) := by
  rw [List.getElem?_map, h]
  rfl

/-- Nobody holds the lock in a way that keeps others from holding it in this one. -/
def Free [DecidableEq L] (x : Executor L D A) (l : L) (m : LockMode) : Prop :=
  ∀ t ∈ x.tasks, ∀ h ∈ t.held, h.1 = l → m.Shares h.2

instance [DecidableEq L] (x : Executor L D A) (l : L) (m : LockMode) : Decidable (x.Free l m) :=
  inferInstanceAs (Decidable (∀ t ∈ x.tasks, ∀ h ∈ t.held, h.1 = l → m.Shares h.2))

/-- Replace a call. -/
def put (x : Executor L D A) (i : Nat) (t : Task L D A) : Executor L D A :=
  { x with tasks := x.tasks.set i t }

@[simp] theorem put_data (x : Executor L D A) (i : Nat) (t : Task L D A) :
    (x.put i t).data = x.data := rfl

@[simp] theorem put_queue (x : Executor L D A) (i : Nat) (t : Task L D A) :
    (x.put i t).queue = x.queue := rfl

@[simp] theorem put_tasks (x : Executor L D A) (i : Nat) (t : Task L D A) :
    (x.put i t).tasks = x.tasks.set i t := rfl

/-- The calls after one of them is replaced. -/
theorem getElem?_put {tasks : List (Task L D A)} {i : Nat} {t₀ : Task L D A}
    (h : tasks[i]? = some t₀) (t : Task L D A) (j : Nat) :
    (tasks.set i t)[j]? = if j = i then some t else tasks[j]? := by
  obtain ⟨hi, -⟩ := List.getElem?_eq_some_iff.mp h
  rw [List.getElem?_set]
  by_cases hj : j = i
  · rw [if_pos hj.symm, if_pos hj, if_pos hi]
  · rw [if_neg (Ne.symm hj), if_neg hj]

variable [DecidableEq L]

/-- A call takes its next step; `none` when it has returned or cannot go on. A call that has
returned gives back its locks one at a time, the latest first. -/
def advance (x : Executor L D A) (i : Nat) : Option (Executor L D A) :=
  match x.tasks[i]? with
  | none => none
  | some ⟨.ret _, [], _⟩ => none
  | some ⟨.ret a, _ :: held, waiting⟩ => some (x.put i ⟨.ret a, held, waiting⟩)
  | some ⟨.lock l m p, held, false⟩ =>
    some { x.put i ⟨.lock l m p, held, true⟩ with
      queue := Function.update x.queue l (x.queue l ++ [i]) }
  | some ⟨.lock l m p, held, true⟩ =>
    if (x.queue l).head? = some i ∧ x.Free l m then
      some { x.put i ⟨p, (l, m) :: held, false⟩ with
        queue := Function.update x.queue l (x.queue l).tail }
    else none
  | some ⟨.unlock l p, held, waiting⟩ =>
    some (x.put i ⟨p, held.eraseP (·.1 = l), waiting⟩)
  | some ⟨.get l p, held, waiting⟩ => some (x.put i ⟨p (x.data l), held, waiting⟩)
  | some ⟨.set l d p, held, waiting⟩ =>
    some { x.put i ⟨p, held, waiting⟩ with data := Function.update x.data l d }

/-- A step of the executor is a step of one call. -/
abbrev Step (x : Executor L D A) (i : Nat) (x' : Executor L D A) : Prop := x.advance i = some x'

/-- All calls have returned and hold nothing. -/
def Finished (x : Executor L D A) : Prop := ∀ t ∈ x.tasks, (∃ a, t.prog = .ret a) ∧ t.held = []

/-- What a step of a call does. -/
inductive Advances (x : Executor L D A) (i : Nat) : Executor L D A → Prop
  | drop {a : A} {h : L × LockMode} {held : List (L × LockMode)} {waiting : Bool} :
      x.tasks[i]? = some ⟨.ret a, h :: held, waiting⟩ →
      Advances x i (x.put i ⟨.ret a, held, waiting⟩)
  | ask {l : L} {m : LockMode} {p : Prog L D A} {held : List (L × LockMode)} :
      x.tasks[i]? = some ⟨.lock l m p, held, false⟩ →
      Advances x i { x.put i ⟨.lock l m p, held, true⟩ with
        queue := Function.update x.queue l (x.queue l ++ [i]) }
  | grant {l : L} {m : LockMode} {p : Prog L D A} {held : List (L × LockMode)}
      {queue : List Nat} :
      x.tasks[i]? = some ⟨.lock l m p, held, true⟩ → x.queue l = i :: queue → x.Free l m →
      Advances x i { x.put i ⟨p, (l, m) :: held, false⟩ with
        queue := Function.update x.queue l queue }
  | unlock {l : L} {p : Prog L D A} {held : List (L × LockMode)} {waiting : Bool} :
      x.tasks[i]? = some ⟨.unlock l p, held, waiting⟩ →
      Advances x i (x.put i ⟨p, held.eraseP (·.1 = l), waiting⟩)
  | get {l : L} {p : D l → Prog L D A} {held : List (L × LockMode)} {waiting : Bool} :
      x.tasks[i]? = some ⟨.get l p, held, waiting⟩ →
      Advances x i (x.put i ⟨p (x.data l), held, waiting⟩)
  | set {l : L} {d : D l} {p : Prog L D A} {held : List (L × LockMode)} {waiting : Bool} :
      x.tasks[i]? = some ⟨.set l d p, held, waiting⟩ →
      Advances x i { x.put i ⟨p, held, waiting⟩ with data := Function.update x.data l d }

/-- Every step is one of these. -/
theorem advances_of_step {x x' : Executor L D A} {i : Nat} (h : x.Step i x') :
    x.Advances i x' := by
  unfold Step advance at h
  split at h
  · cases h
  · cases h
  · next ht => cases h; exact .drop ht
  · next ht => cases h; exact .ask ht
  · next l m p held ht =>
    split at h
    · next hq =>
      cases h
      obtain ⟨hhead, hfree⟩ := hq
      cases hl : x.queue l with
      | nil =>
        rw [hl] at hhead
        cases hhead
      | cons j queue =>
        rw [hl] at hhead
        cases hhead
        exact .grant ht hl hfree
    · cases h
  · next ht => cases h; exact .unlock ht
  · next ht => cases h; exact .get ht
  · next ht => cases h; exact .set ht

/-- A call that is there takes a step, unless it has returned and holds nothing, or it waits
for a lock that it does not get. -/
theorem advance_eq_none {x : Executor L D A} {i : Nat} {t : Task L D A}
    (ht : x.tasks[i]? = some t) (h : x.advance i = none) :
    ((∃ a, t.prog = .ret a) ∧ t.held = []) ∨
    (t.waiting = true ∧ ∃ l m p, t.prog = .lock l m p ∧
      ¬((x.queue l).head? = some i ∧ x.Free l m)) := by
  obtain ⟨prog, held, waiting⟩ := t
  unfold advance at h
  rw [ht] at h
  cases prog with
  | ret a =>
    cases held with
    | nil => exact .inl ⟨⟨a, rfl⟩, rfl⟩
    | cons h' held => cases h
  | lock l m p =>
    cases waiting with
    | false => cases h
    | true =>
      refine .inr ⟨rfl, l, m, p, rfl, fun hg ↦ ?_⟩
      dsimp only at h
      rw [if_pos hg] at h
      cases h
  | unlock l p => cases h
  | get l p => cases h
  | set l d p => cases h

/-- A step changes no other call. -/
theorem Advances.tasks_of_ne {x x' : Executor L D A} {i j : Nat} (h : x.Advances i x')
    (hj : j ≠ i) : x'.tasks[j]? = x.tasks[j]? := by
  cases h with
  | drop ht | ask ht | grant ht | unlock ht | get ht | set ht =>
    exact (getElem?_put ht _ j).trans (if_neg hj)

end Executor
end SilverPow.Base
