import Mathlib.Algebra.Order.Group.Multiset
import Mathlib.Logic.Hydra
import Mathlib.Order.WellFounded
import SilverPow.Base.Locks

/-!
# Whether all calls return

Programs have no loops, so that every schedule ends. It ends with all calls returned if each
call takes the locks in one order, the same for all calls. A set of calls that wait for each
other, directly or in a queue, stays as it is whatever the other calls do.
-/

namespace SilverPow.Base

variable {L : Type} {D : L → Type} {A : Type}

/-! ### Every schedule ends -/

/-- What a call may be after a step. -/
inductive Task.Next [DecidableEq L] : Task L D A → Task L D A → Prop
  | drop {a : A} {h : L × LockMode} {held : List (L × LockMode)} {waiting : Bool} :
      Next ⟨.ret a, held, waiting⟩ ⟨.ret a, h :: held, waiting⟩
  | ask {l : L} {m : LockMode} {p : Prog L D A} {held : List (L × LockMode)} :
      Next ⟨.lock l m p, held, true⟩ ⟨.lock l m p, held, false⟩
  | grant {l : L} {m : LockMode} {p : Prog L D A} {held : List (L × LockMode)} :
      Next ⟨p, (l, m) :: held, false⟩ ⟨.lock l m p, held, true⟩
  | unlock {l : L} {p : Prog L D A} {held : List (L × LockMode)} {waiting : Bool} :
      Next ⟨p, held.eraseP (·.1 = l), waiting⟩ ⟨.unlock l p, held, waiting⟩
  | get {l : L} {p : D l → Prog L D A} {d : D l} {held : List (L × LockMode)} {waiting : Bool} :
      Next ⟨p d, held, waiting⟩ ⟨.get l p, held, waiting⟩
  | set {l : L} {d : D l} {p : Prog L D A} {held : List (L × LockMode)} {waiting : Bool} :
      Next ⟨p, held, waiting⟩ ⟨.set l d p, held, waiting⟩

/-- A call cannot take steps for ever. -/
theorem Task.acc_next [DecidableEq L] (prog : Prog L D A) (held : List (L × LockMode))
    (waiting : Bool) : Acc Task.Next ⟨prog, held, waiting⟩ := by
  induction prog generalizing held waiting with
  | ret a =>
    induction held with
    | nil => exact ⟨_, fun _ h ↦ (nomatch h)⟩
    | cons h held ih =>
      refine ⟨_, fun t ht ↦ ?_⟩
      cases ht
      exact ih
  | lock l m p ih =>
    have htrue : Acc Task.Next (⟨.lock l m p, held, true⟩ : Task L D A) := by
      refine ⟨_, fun t ht ↦ ?_⟩
      cases ht
      exact ih _ _
    cases waiting with
    | true => exact htrue
    | false =>
      refine ⟨_, fun t ht ↦ ?_⟩
      cases ht
      exact htrue
  | unlock l p ih | set l d p ih =>
    refine ⟨_, fun t ht ↦ ?_⟩
    cases ht
    exact ih _ _
  | get l p ih =>
    refine ⟨_, fun t ht ↦ ?_⟩
    cases ht
    exact ih _ _ _

/-- A list in which one entry is replaced, up to the order. -/
theorem coe_set_add {α : Type} {l : List α} {i : Nat} {a : α} (h : l[i]? = some a) (b : α) :
    (l.set i b : Multiset α) + {a} = (l : Multiset α) + {b} := by
  induction l generalizing i with
  | nil => cases h
  | cons c l ih =>
    cases i with
    | zero =>
      cases h
      rw [List.set_cons_zero, ← Multiset.cons_coe, ← Multiset.cons_coe, ← Multiset.singleton_add,
        ← Multiset.singleton_add]
      calc ({b} + l + {a} : Multiset α) = {b} + (l + {a}) := Multiset.add_assoc ..
        _ = l + {a} + {b} := Multiset.add_comm ..
        _ = {a} + l + {b} := by rw [Multiset.add_comm (l : Multiset α)]
    | succ i =>
      rw [List.set_cons_succ, ← Multiset.cons_coe, ← Multiset.cons_coe, Multiset.cons_add,
        Multiset.cons_add, ih h]

namespace Executor

variable {x x' : Executor L D A}

/-! ### Who waits -/

/-- The queues hold the calls that wait, each once and at the lock that comes next. -/
structure Queued (x : Executor L D A) : Prop where
  asked : ∀ i t, x.tasks[i]? = some t → t.waiting = true →
    ∃ l m p, t.prog = .lock l m p ∧ i ∈ x.queue l
  waits : ∀ l, ∀ i ∈ x.queue l, ∃ m p held, x.tasks[i]? = some ⟨.lock l m p, held, true⟩
  nodup : ∀ l, (x.queue l).Nodup

/-- Calls that have not begun wait nowhere. -/
theorem queued_start (data : ∀ l, D l) (progs : List (Prog L D A)) :
    Queued (start data progs) where
  asked i t ht hw := by
    obtain ⟨p, -, rfl⟩ := List.mem_map.mp (List.mem_of_getElem? ht)
    cases hw
  waits l i hi := nomatch hi
  nodup l := .nil

/-- A call that does not wait is replaced by one that does not wait. -/
theorem Queued.put (h : Queued x) {i : Nat} {t t' : Task L D A} (ht : x.tasks[i]? = some t)
    (hw : t.waiting = false) (htasks : x'.tasks = x.tasks.set i t') (hqueue : x'.queue = x.queue)
    (hw' : t'.waiting = false) : Queued x' where
  asked j u hu huw := by
    rw [htasks, getElem?_put ht] at hu
    rw [hqueue]
    split at hu
    · cases hu
      rw [hw'] at huw
      cases huw
    · exact h.asked j u hu huw
  waits l j hj := by
    rw [hqueue] at hj
    obtain ⟨m, p, held, hu⟩ := h.waits l j hj
    refine ⟨m, p, held, ?_⟩
    rw [htasks, getElem?_put ht, if_neg, hu]
    rintro rfl
    cases ht.symm.trans hu
    cases hw
  nodup l := by
    rw [hqueue]
    exact h.nodup l

/-- A call whose next instruction takes no lock does not wait. -/
theorem Queued.not_waiting (h : Queued x) {i : Nat} {t : Task L D A} (ht : x.tasks[i]? = some t)
    (hp : ∀ l m p, t.prog ≠ .lock l m p) : t.waiting = false := by
  by_contra hw
  obtain ⟨l, m, p, hlock, -⟩ := h.asked i t ht (Bool.eq_true_of_not_eq_false hw)
  exact hp l m p hlock

section Steps

variable [DecidableEq L]

/-- A step replaces one call by what it may be next. -/
theorem Advances.next {i : Nat} (h : x.Advances i x') :
    ∃ t t', x.tasks[i]? = some t ∧ t'.Next t ∧ x'.tasks = x.tasks.set i t' := by
  cases h with
  | drop ht => exact ⟨_, _, ht, .drop, rfl⟩
  | ask ht => exact ⟨_, _, ht, .ask, rfl⟩
  | grant ht => exact ⟨_, _, ht, .grant, rfl⟩
  | unlock ht => exact ⟨_, _, ht, .unlock, rfl⟩
  | get ht => exact ⟨_, _, ht, .get, rfl⟩
  | set ht => exact ⟨_, _, ht, .set, rfl⟩

/-- The calls cannot take steps for ever. -/
theorem wellFounded_step : WellFounded fun x' x : Executor L D A ↦ ∃ i, x.Step i x' := by
  have hwf : WellFounded (Task.Next (D := D) (A := A) (L := L)) :=
    ⟨fun t ↦ Task.acc_next t.prog t.held t.waiting⟩
  refine Subrelation.wf ?_ (InvImage.wf (fun x ↦ (x.tasks : Multiset _)) hwf.cutExpand)
  rintro x' x ⟨i, h⟩
  obtain ⟨t, t', ht, hnext, htasks⟩ := (advances_of_step h).next
  refine ⟨{t'}, t, fun a ha ↦ ?_, ?_⟩
  · rwa [Multiset.mem_singleton.mp ha]
  · change (x'.tasks : Multiset _) + {t} = _
    rw [htasks]
    exact coe_set_add ht t'

/-- Every schedule ends. -/
theorem ends (run : Nat → Executor L D A) : ∃ n, ∀ i, ¬(run n).Step i (run (n + 1)) := by
  have hwf : IsWellFounded (Executor L D A) fun x' x ↦ ∃ i, x.Step i x' := ⟨wellFounded_step⟩
  obtain ⟨n, hn⟩ := WellFounded.not_rel_apply_succ (h := hwf) run
  exact ⟨n, fun i hi ↦ hn ⟨i, hi⟩⟩

/-- Every schedule goes on to an end. -/
theorem exists_end (x : Executor L D A) : ∃ is x', Run Step x is x' ∧ ∀ i, x'.advance i = none := by
  induction wellFounded_step.apply x with
  | intro x _ ih =>
    by_cases h : ∃ i x', x.Step i x'
    · obtain ⟨i, x₁, h⟩ := h
      obtain ⟨is, x', hr, hend⟩ := ih x₁ ⟨i, h⟩
      exact ⟨i :: is, x', Run.cons h hr, hend⟩
    · refine ⟨[], x, .nil, fun i ↦ ?_⟩
      cases ha : x.advance i with
      | none => rfl
      | some x' => exact absurd ⟨i, x', ha⟩ h

/-- The calls of an executor all return: every schedule ends, and with all calls returned. -/
structure AllReturn (x₀ : Executor L D A) : Prop where
  ends : ∀ run : Nat → Executor L D A, run 0 = x₀ → ∃ n, ∀ i, ¬(run n).Step i (run (n + 1))
  returned : ∀ is x, Run Step x₀ is x → (∀ i, x.advance i = none) → x.Finished

/-- Steps keep the queues in order. -/
theorem Queued.step (h : Queued x) {i : Nat} (ha : x.Advances i x') : Queued x' := by
  cases ha with
  | drop ht =>
    have hw := h.not_waiting ht (by rintro _ _ _ ⟨⟩)
    exact h.put ht hw rfl rfl hw
  | unlock ht | get ht | set ht =>
    have hw := h.not_waiting ht (by rintro _ _ _ ⟨⟩)
    exact h.put ht hw rfl rfl hw
  | @ask l m p held ht =>
    have hnot : ∀ l', i ∉ x.queue l' := by
      intro l' hi
      obtain ⟨_, _, _, hu⟩ := h.waits l' i hi
      cases ht.symm.trans hu
    refine ⟨fun j u hu huw ↦ ?_, fun l' j hj ↦ ?_, fun l' ↦ ?_⟩
    · rw [put_tasks, getElem?_put ht] at hu
      split at hu
      · next hji =>
        cases hu
        refine ⟨l, m, p, rfl, ?_⟩
        rw [hji]
        simp
      · obtain ⟨l', m', p', hp, hj⟩ := h.asked j u hu huw
        refine ⟨l', m', p', hp, ?_⟩
        by_cases hl : l' = l
        · subst hl
          simp [hj]
        · simpa [hl] using hj
    · rw [put_tasks, getElem?_put ht]
      by_cases hji : j = i
      · subst hji
        rw [if_pos rfl]
        by_cases hl : l' = l
        · subst hl
          exact ⟨m, p, held, rfl⟩
        · exact absurd (by simpa [hl] using hj) (hnot l')
      · rw [if_neg hji]
        refine h.waits l' j ?_
        by_cases hl : l' = l
        · subst hl
          simpa [hji] using hj
        · simpa [hl] using hj
    · by_cases hl : l' = l
      · subst hl
        have := List.Nodup.concat (hnot l') (h.nodup l')
        simpa [List.concat_eq_append] using this
      · simpa [hl] using h.nodup l'
  | @grant l m p held queue ht hq hfree =>
    have hnodup := h.nodup l
    rw [hq, List.nodup_cons] at hnodup
    have hmem : ∀ l', ∀ j ∈ Function.update x.queue l queue l', j ∈ x.queue l' ∧ j ≠ i := by
      intro l' j hj
      by_cases hl : l' = l
      · subst hl
        rw [Function.update_self] at hj
        rw [hq]
        exact ⟨List.mem_cons_of_mem _ hj, fun hji ↦ hnodup.1 (hji ▸ hj)⟩
      · rw [Function.update_of_ne hl] at hj
        refine ⟨hj, ?_⟩
        rintro rfl
        obtain ⟨_, _, _, hu⟩ := h.waits l' j hj
        cases ht.symm.trans hu
        exact hl rfl
    refine ⟨fun j u hu huw ↦ ?_, fun l' j hj ↦ ?_, fun l' ↦ ?_⟩
    · rw [put_tasks, getElem?_put ht] at hu
      split at hu
      · cases hu
        cases huw
      · next hji =>
        obtain ⟨l', m', p', hp, hj⟩ := h.asked j u hu huw
        refine ⟨l', m', p', hp, ?_⟩
        by_cases hl : l' = l
        · subst hl
          rw [hq] at hj
          simpa using (List.mem_cons.mp hj).resolve_left hji
        · simpa [hl] using hj
    · obtain ⟨hold, hji⟩ := hmem l' j hj
      obtain ⟨m', p', held', hu⟩ := h.waits l' j hold
      exact ⟨m', p', held', by rw [put_tasks, getElem?_put ht, if_neg hji, hu]⟩
    · by_cases hl : l' = l
      · subst hl
        simpa using hnodup.2
      · simpa [hl] using h.nodup l'

/-- The queues of calls that began without locks are in order. -/
theorem queued_of_run {data : ∀ l, D l} {progs : List (Prog L D A)} {is : List Nat}
    (hr : Run Step (start data progs) is x) : Queued x :=
  hr.invariant Queued (queued_start data progs) fun _ _ _ h hs ↦ h.step (advances_of_step hs)

end Steps

end Executor
end SilverPow.Base
