import SilverPow.Base.Locks

/-!
# Data that one call writes

Where only one of the calls writes some of the data, what it keeps of them as it goes on holds
in every state that the calls come to: the others can only change what it reads elsewhere.
-/

namespace SilverPow.Base

variable {L : Type} {D : L → Type} {A : Type} {own : L → Prop} {I : (∀ l, D l) → Prop}

/-- The property depends on nothing but the data of its own. -/
def DependsOn (own : L → Prop) (I : (∀ l, D l) → Prop) : Prop :=
  ∀ data data' : ∀ l, D l, (∀ l, own l → data' l = data l) → I data → I data'

namespace Prog

/-- The program writes nothing of these data. -/
@[simp] def Spares (own : L → Prop) : Prog L D A → Prop
  | .ret _ => True
  | .lock _ _ p | .unlock _ p => p.Spares own
  | .get _ p => ∀ d, (p d).Spares own
  | .set l _ p => ¬own l ∧ p.Spares own

/-- A branch spares what both ways spare. -/
@[simp] theorem spares_ite {c : Prop} [Decidable c] {p q : Prog L D A} :
    (if c then p else q).Spares own ↔ (c → p.Spares own) ∧ (¬c → q.Spares own) := by
  by_cases h : c <;> simp [h]

variable [DecidableEq L]

/-- From these data on the program keeps the property at each of its writes, whatever the
others make of the data that are not its own. -/
def Keeps (own : L → Prop) (I : (∀ l, D l) → Prop) : (∀ l, D l) → Prog L D A → Prop
  | _, .ret _ => True
  | data, .lock _ _ p | data, .unlock _ p => p.Keeps own I data
  | data, .get l p => ∀ d, (own l → d = data l) → (p d).Keeps own I data
  | data, .set l d p => I (Function.update data l d) ∧ p.Keeps own I (Function.update data l d)

/-- A branch keeps what both ways keep. -/
theorem keeps_ite {c : Prop} [Decidable c] {data : ∀ l, D l} {p q : Prog L D A} :
    (if c then p else q).Keeps own I data ↔
      (c → p.Keeps own I data) ∧ (¬c → q.Keeps own I data) := by
  by_cases h : c <;> simp [h]

/-- What the others do to the rest of the data does not matter to it. -/
theorem Keeps.congr (hI : DependsOn own I) {data data' : ∀ l, D l} {p : Prog L D A}
    (h : p.Keeps own I data) (hdata : ∀ l, own l → data' l = data l) : p.Keeps own I data' := by
  have hupdate {data data' : ∀ l, D l} (hdata : ∀ l, own l → data' l = data l) (l : L) (d : D l) :
      ∀ k, own k → Function.update data' l d k = Function.update data l d k := by
    intro k hk
    by_cases hkl : k = l
    · subst hkl
      rw [Function.update_self, Function.update_self]
    · rw [Function.update_of_ne hkl, Function.update_of_ne hkl, hdata k hk]
  induction p generalizing data data' with
  | ret a => trivial
  | lock l m p ih => exact ih h hdata
  | unlock l p ih => exact ih h hdata
  | get l p ih => exact fun d hd ↦ ih d (h d fun hl ↦ (hd hl).trans (hdata l hl)) hdata
  | set l d p ih => exact ⟨hI _ _ (hupdate hdata l d) h.1, ih h.2 (hupdate hdata l d)⟩

/-- A program that writes none of the data keeps what it finds. -/
theorem Spares.keeps (hI : DependsOn own I) {p : Prog L D A} (h : p.Spares own)
    {data : ∀ l, D l} (hd : I data) : p.Keeps own I data := by
  induction p generalizing data with
  | ret a => trivial
  | lock l m p ih => exact ih h hd
  | unlock l p ih => exact ih h hd
  | get l p ih => exact fun d _ ↦ ih d (h d) hd
  | set l d p ih =>
    have hu : I (Function.update data l d) :=
      hI _ _ (fun k hk ↦ Function.update_of_ne (fun hkl : k = l ↦ h.1 (hkl ▸ hk)) d data) hd
    exact ⟨hu, ih h.2 hu⟩

end Prog

/-- Of the entries, no two of which have a property, at most one place has it. -/
theorem exists_sole {B : Type} {P : B → Prop} {bs : List B}
    (h : bs.Pairwise fun a b ↦ ¬(P a ∧ P b)) :
    ∃ i : Nat, ∀ (j : Nat) b, bs[j]? = some b → P b → j = i := by
  induction bs with
  | nil => exact ⟨0, fun j b hj ↦ nomatch hj⟩
  | cons a bs ih =>
    obtain ⟨ha, h⟩ := List.pairwise_cons.mp h
    by_cases hP : P a
    · refine ⟨0, fun j b hj hb ↦ ?_⟩
      cases j with
      | zero => rfl
      | succ j => exact absurd ⟨hP, hb⟩ (ha b (List.mem_of_getElem? hj))
    · obtain ⟨i, hi⟩ := ih h
      refine ⟨i + 1, fun j b hj hb ↦ ?_⟩
      cases j with
      | zero =>
        cases hj
        exact absurd hb hP
      | succ j => exact congrArg (· + 1) (hi j b hj hb)

namespace Executor

variable [DecidableEq L]

/-- The data are as the property says, and the call `i`, which alone writes them, keeps it. -/
structure Solely (own : L → Prop) (I : (∀ l, D l) → Prop) (i : Nat) (x : Executor L D A) :
    Prop where
  holds : I x.data
  keeps : ∀ t, x.tasks[i]? = some t → t.prog.Keeps own I x.data
  spares : ∀ j t, j ≠ i → x.tasks[j]? = some t → t.prog.Spares own

/-- A step that leaves the data as they are and goes on with its program. -/
theorem Solely.put {i j : Nat} {x : Executor L D A} {t₀ t : Task L D A}
    (h : Solely own I i x) (queue : L → List Nat) (ht : x.tasks[j]? = some t₀)
    (hkeeps : t₀.prog.Keeps own I x.data → t.prog.Keeps own I x.data)
    (hspares : t₀.prog.Spares own → t.prog.Spares own) :
    Solely own I i { x.put j t with queue := queue } where
  holds := h.holds
  keeps u hu := by
    rw [put_tasks, getElem?_put ht] at hu
    by_cases hij : i = j
    · rw [if_pos hij] at hu
      cases hu
      exact hkeeps (h.keeps t₀ (hij ▸ ht))
    · rw [if_neg hij] at hu
      exact h.keeps u hu
  spares k u hk hu := by
    rw [put_tasks, getElem?_put ht] at hu
    by_cases hkj : k = j
    · rw [if_pos hkj] at hu
      cases hu
      exact hspares (h.spares j t₀ (hkj ▸ hk) ht)
    · rw [if_neg hkj] at hu
      exact h.spares k u hk hu

/-- A step of any call keeps it so. -/
theorem Solely.step (hI : DependsOn own I) {i j : Nat} {x x' : Executor L D A}
    (h : Solely own I i x) (hs : x.Advances j x') : Solely own I i x' := by
  cases hs with
  | drop ht => exact h.put x.queue ht id id
  | ask ht => exact h.put _ ht id id
  | grant ht _ _ => exact h.put _ ht id id
  | unlock ht => exact h.put x.queue ht id id
  | get ht => exact h.put x.queue ht (fun hk ↦ hk _ fun _ ↦ rfl) fun hn ↦ hn _
  | @set l d p held waiting ht =>
    by_cases hij : i = j
    · -- The call that writes the data keeps the property by itself.
      subst hij
      obtain ⟨hd, hp⟩ := h.keeps _ ht
      refine ⟨hd, fun t hti ↦ ?_, fun k t hk htk ↦ ?_⟩
      · rw [put_tasks, getElem?_put ht, if_pos rfl] at hti
        cases hti
        exact hp
      · rw [put_tasks, getElem?_put ht, if_neg hk] at htk
        exact h.spares k t hk htk
    · -- Any other call writes elsewhere.
      obtain ⟨hl, hp⟩ := h.spares j _ (Ne.symm hij) ht
      have hdata : ∀ k, own k → Function.update x.data l d k = x.data k := fun k hk ↦
        Function.update_of_ne (fun hkl : k = l ↦ hl (hkl ▸ hk)) d x.data
      refine ⟨hI _ _ hdata h.holds, fun t hti ↦ ?_, fun k t hk htk ↦ ?_⟩
      · rw [put_tasks, getElem?_put ht, if_neg hij] at hti
        exact (h.keeps t hti).congr hI hdata
      · rw [put_tasks, getElem?_put ht] at htk
        by_cases hkj : k = j
        · rw [if_pos hkj] at htk
          cases htk
          exact hp
        · rw [if_neg hkj] at htk
          exact h.spares k t hk htk

/-- Where one call alone writes the data and keeps the property, it always holds. -/
theorem holds_of_run (hI : DependsOn own I) {data : ∀ l, D l} {progs : List (Prog L D A)}
    {i : Nat} (h : I data) (hkeeps : ∀ p, progs[i]? = some p → p.Keeps own I data)
    (hspares : ∀ j p, j ≠ i → progs[j]? = some p → p.Spares own) {is : List Nat}
    {x : Executor L D A} (hr : Run Step (start data progs) is x) : I x.data := by
  have hstart : Solely own I i (start data progs) := by
    refine ⟨h, fun t ht ↦ ?_, fun j t hj ht ↦ ?_⟩
    · rw [start, List.getElem?_map] at ht
      obtain ⟨p, hp, rfl⟩ := Option.map_eq_some_iff.mp ht
      exact hkeeps p hp
    · rw [start, List.getElem?_map] at ht
      obtain ⟨p, hp, rfl⟩ := Option.map_eq_some_iff.mp ht
      exact hspares j p hj hp
  exact (hr.invariant (Solely own I i) hstart fun _ _ _ hsole hs ↦
    hsole.step hI (advances_of_step hs)).holds

end Executor
end SilverPow.Base
