import SilverPow.Base.Returns

/-!
# Calls that wait for each other

Calls that wait for each other, as holders of a lock or ahead in its queue, wait for ever,
whatever the other calls do. Two calls come to do so when each holds a lock that the other one
asks for, and a third call can take part by queueing up between them.
-/

namespace SilverPow.Base

variable {L : Type} {D : L → Type} {A : Type} [DecidableEq L]

/-- What a call has made of the data, what is left of it and what it holds, after some steps
alone; it stops before a lock that others hold and do not share, or that it holds itself. -/
def Prog.after (busy : List (L × LockMode)) : Nat → (∀ l, D l) → Prog L D A → List (L × LockMode) →
    (∀ l, D l) × Prog L D A × List (L × LockMode)
  | n + 1, data, .lock l m p, held =>
    if (∃ b ∈ busy, b.1 = l ∧ ¬m.Shares b.2) ∨ l ∈ held.map Prod.fst then (data, .lock l m p, held)
    else p.after busy n data ((l, m) :: held)
  | n + 1, data, .ret a, _ :: held => (Prog.ret a).after busy n data held
  | n + 1, data, .unlock l p, held => p.after busy n data (held.eraseP (·.1 = l))
  | n + 1, data, .get l p, held => (p (data l)).after busy n data held
  | n + 1, data, .set l d p, held => p.after busy n (Function.update data l d) held
  | _, data, p, held => (data, p, held)

namespace Executor

variable {x x' : Executor L D A}

/-- Each call of the set waits for a lock that another call of the set holds, or stands behind
another call of the set in the queue. -/
def Jam (x : Executor L D A) (w : List Nat) : Prop :=
  ∀ i ∈ w, ∃ l m p held, x.tasks[i]? = some ⟨.lock l m p, held, true⟩ ∧
    ((∃ j ∈ w, ∃ t, x.tasks[j]? = some t ∧ ∃ h ∈ t.held, h.1 = l ∧ ¬m.Shares h.2) ∨
      ∃ j ∈ w, List.Sublist [j, i] (x.queue l))

/-- No call of a jam takes a step. -/
theorem Jam.notMem {w : List Nat} (h : Jam x w) (hq : Queued x) {i : Nat}
    (ha : x.Advances i x') : i ∉ w := by
  intro hi
  obtain ⟨l, m, p, held, ht, hwhy⟩ := h i hi
  cases ha with
  | drop ht' | ask ht' | unlock ht' | get ht' | set ht' => cases ht.symm.trans ht'
  | grant ht' hl hfree =>
    cases ht.symm.trans ht'
    obtain ⟨j, -, t, htj, h', hh, hhl, hshares⟩ | ⟨j, -, hsub⟩ := hwhy
    · exact hshares (hfree t (List.mem_of_getElem? htj) h' hh hhl)
    · -- Nobody stands ahead of the first of a queue.
      have hn := hq.nodup l
      rw [hl] at hsub hn
      rw [List.nodup_cons] at hn
      cases hsub with
      | cons _ hsub => exact hn.1 (hsub.subset (by simp))
      | cons_cons _ hsub => exact hn.1 (hsub.subset (by simp))

/-- A jam stays, whatever the other calls do. -/
theorem Jam.step {w : List Nat} (h : Jam x w) (hq : Queued x) {i : Nat}
    (ha : x.Advances i x') : Jam x' w := by
  have hi := h.notMem hq ha
  have hne : ∀ j ∈ w, j ≠ i := fun j hj hji ↦ hi (hji ▸ hj)
  have hqueue : ∀ l, ∀ j ∈ w, ∀ k ∈ w, List.Sublist [j, k] (x.queue l) →
      List.Sublist [j, k] (x'.queue l) := by
    intro l j hj k hk hsub
    cases ha with
    | drop | unlock | get | set => exact hsub
    | @ask l' _ _ _ ht =>
      by_cases hl : l = l'
      · subst hl
        have := hsub.trans (List.sublist_append_left (x.queue l) [i])
        simpa using this
      · simpa [hl] using hsub
    | @grant l' _ _ _ queue ht hfirst hfree =>
      by_cases hl : l = l'
      · subst hl
        rw [hfirst] at hsub
        cases hsub with
        | cons _ hsub => simpa using hsub
        | cons_cons _ hsub => exact absurd rfl (hne _ hj)
      · simpa [hl] using hsub
  intro j hj
  obtain ⟨l, m, p, held, ht, hwhy⟩ := h j hj
  refine ⟨l, m, p, held, (ha.tasks_of_ne (hne j hj)).trans ht, ?_⟩
  obtain ⟨k, hk, t, htk, hh⟩ | ⟨k, hk, hsub⟩ := hwhy
  · exact .inl ⟨k, hk, t, (ha.tasks_of_ne (hne k hk)).trans htk, hh⟩
  · exact .inr ⟨k, hk, hqueue l k hk j hj hsub⟩

/-- Where calls can come to wait for each other, not all return. -/
theorem not_allReturn_of_jam {data : ∀ l, D l} {progs : List (Prog L D A)} {is : List Nat}
    (hr : Run Step (start data progs) is x) {i : Nat} {w : List Nat} (h : Jam x (i :: w)) :
    ¬AllReturn (start data progs) := by
  intro hall
  obtain ⟨is', x', hr', hend⟩ := exists_end x
  have hjam : Queued x' ∧ Jam x' (i :: w) := by
    refine hr'.invariant (fun x ↦ Queued x ∧ Jam x (i :: w)) ⟨queued_of_run hr, h⟩ ?_
    rintro y j y' ⟨hq, hj⟩ hs
    exact ⟨hq.step (advances_of_step hs), hj.step hq (advances_of_step hs)⟩
  obtain ⟨l, m, p, held, ht, -⟩ := hjam.2 i List.mem_cons_self
  obtain ⟨⟨a, ha⟩, -⟩ := hall.returned _ _ (hr.trans hr') hend _ (List.mem_of_getElem? ht)
  cases ha

/-! ### How calls come to wait -/

section Alone

variable {i : Nat} {held : List (L × LockMode)}

/-- A call that is alone at a lock gets it. -/
theorem exists_run_lock {l : L} {m : LockMode} {p : Prog L D A}
    (ht : x.tasks[i]? = some ⟨.lock l m p, held, false⟩) (hq : x.queue l = [])
    (hfree : x.Free l m) :
    ∃ is, Run Step x is (x.put i ⟨p, (l, m) :: held, false⟩) := by
  let y : Executor L D A := { x.put i ⟨.lock l m p, held, true⟩ with
    queue := Function.update x.queue l (x.queue l ++ [i]) }
  have hask : x.Step i y := by
    unfold Step advance
    rw [ht]
  have hy : y.tasks[i]? = some ⟨.lock l m p, held, true⟩ := (getElem?_put ht _ i).trans (if_pos rfl)
  have hyq : y.queue l = [i] := by
    change Function.update x.queue l (x.queue l ++ [i]) l = [i]
    rw [Function.update_self, hq, List.nil_append]
  have hyfree : y.Free l m := by
    intro t htm h hh hhl
    obtain ⟨j, hj⟩ := List.getElem?_of_mem htm
    by_cases hji : j = i
    · subst hji
      cases hy.symm.trans hj
      exact hfree _ (List.mem_of_getElem? ht) h hh hhl
    · have hxj : x.tasks[j]? = some t := ((getElem?_put ht _ j).trans (if_neg hji)).symm.trans hj
      exact hfree t (List.mem_of_getElem? hxj) h hh hhl
  have hgrant : y.Step i (x.put i ⟨p, (l, m) :: held, false⟩) := by
    unfold Step advance
    rw [hy]
    dsimp only
    rw [if_pos ⟨by rw [hyq]; rfl, hyfree⟩, hyq, List.tail_cons]
    have hqueue : Function.update y.queue l [] = x.queue := by
      change Function.update (Function.update x.queue l _) l [] = x.queue
      rw [Function.update_idem, ← hq, Function.update_eq_self]
    change some (⟨x.data, (x.tasks.set i _).set i _, _⟩ : Executor L D A) = _
    rw [List.set_set, hqueue]
    rfl
  exact ⟨[i, i], Run.cons hask (Run.cons hgrant .nil)⟩

/-- A call goes on alone up to a lock that it does not get. -/
theorem exists_run_after (busy : List (L × LockMode)) (n : Nat) {p : Prog L D A}
    (ht : x.tasks[i]? = some ⟨p, held, false⟩) (hq : ∀ l, x.queue l = [])
    (hbusy : ∀ j t, j ≠ i → x.tasks[j]? = some t → ∀ h ∈ t.held, h ∈ busy) :
    ∃ is x', Run Step x is x' ∧ x'.data = (p.after busy n x.data held).1 ∧ x'.queue = x.queue ∧
      x'.tasks[i]? = some ⟨(p.after busy n x.data held).2.1, (p.after busy n x.data held).2.2,
        false⟩ ∧ ∀ j, j ≠ i → x'.tasks[j]? = x.tasks[j]? := by
  induction n generalizing x p held with
  | zero => exact ⟨[], x, .nil, rfl, rfl, ht, fun _ _ ↦ rfl⟩
  | succ n ih =>
    -- After its first steps the call goes on as before, and the others are where they were.
    have hgo {y : Executor L D A} {p' : Prog L D A} {held' : List (L × LockMode)} {is : List Nat}
        (hr : Run Step x is y) (hy : y.tasks = x.tasks.set i ⟨p', held', false⟩)
        (hyq : y.queue = x.queue) :
        ∃ is x', Run Step x is x' ∧ x'.data = (p'.after busy n y.data held').1 ∧
          x'.queue = x.queue ∧ x'.tasks[i]? = some ⟨(p'.after busy n y.data held').2.1,
            (p'.after busy n y.data held').2.2, false⟩ ∧
          ∀ j, j ≠ i → x'.tasks[j]? = x.tasks[j]? := by
      have hother {j : Nat} (hj : j ≠ i) : y.tasks[j]? = x.tasks[j]? := by
        rw [hy, getElem?_put ht, if_neg hj]
      obtain ⟨is', x', hr', hd, hq', hi, ho⟩ := ih (x := y)
        (by rw [hy, getElem?_put ht, if_pos rfl]) (fun l ↦ by rw [hyq]; exact hq l)
        fun j t hj htj ↦ hbusy j t hj ((hother hj).symm.trans htj)
      exact ⟨is ++ is', x', hr.trans hr', hd, hq'.trans hyq, hi,
        fun j hj ↦ (ho j hj).trans (hother hj)⟩
    cases p with
    | ret a =>
      cases held with
      | nil => exact ⟨[], x, .nil, rfl, rfl, ht, fun _ _ ↦ rfl⟩
      | cons h held =>
        have hs : x.Step i (x.put i ⟨.ret a, held, false⟩) := by
          unfold Step advance
          rw [ht]
        exact hgo (y := x.put i _) (Run.cons hs .nil) rfl rfl
    | lock l m p =>
      rw [Prog.after]
      by_cases hl : (∃ b ∈ busy, b.1 = l ∧ ¬m.Shares b.2) ∨ l ∈ held.map Prod.fst
      · rw [if_pos hl]
        exact ⟨[], x, .nil, rfl, rfl, ht, fun _ _ ↦ rfl⟩
      · rw [if_neg hl]
        rw [not_or] at hl
        obtain ⟨is, hr⟩ := exists_run_lock ht (hq l) fun t htm h hh hhl ↦ by
          obtain ⟨j, hj⟩ := List.getElem?_of_mem htm
          subst hhl
          by_cases hji : j = i
          · subst hji
            cases ht.symm.trans hj
            exact absurd (List.mem_map_of_mem hh) hl.2
          · by_contra hshares
            exact hl.1 ⟨h, hbusy j t hji hj h hh, rfl, hshares⟩
        exact hgo (y := x.put i ⟨p, (l, m) :: held, false⟩) hr rfl rfl
    | unlock l p =>
      have hs : x.Step i (x.put i ⟨p, held.eraseP (·.1 = l), false⟩) := by
        unfold Step advance
        rw [ht]
      exact hgo (y := x.put i _) (Run.cons hs .nil) rfl rfl
    | get l p =>
      have hs : x.Step i (x.put i ⟨p (x.data l), held, false⟩) := by
        unfold Step advance
        rw [ht]
      exact hgo (y := x.put i _) (Run.cons hs .nil) rfl rfl
    | set l d p =>
      have hs : x.Step i { x.put i ⟨p, held, false⟩ with data := Function.update x.data l d } := by
        unfold Step advance
        rw [ht]
      exact hgo (Run.cons hs .nil) rfl rfl

/-- A call asks for a lock. -/
theorem step_ask {l : L} {m : LockMode} {p : Prog L D A}
    (ht : x.tasks[i]? = some ⟨.lock l m p, held, false⟩) :
    ∃ x', x.Step i x' ∧ x'.tasks[i]? = some ⟨.lock l m p, held, true⟩ ∧
      (∀ j, j ≠ i → x'.tasks[j]? = x.tasks[j]?) ∧
      x'.queue = Function.update x.queue l (x.queue l ++ [i]) := by
  refine ⟨_, by unfold Step advance; rw [ht], ?_, fun j hj ↦ ?_, rfl⟩
  · exact (getElem?_put ht _ i).trans (if_pos rfl)
  · exact (getElem?_put ht _ j).trans (if_neg hj)

end Alone

section Crossing

variable {data data₁ data₂ : ∀ l, D l} {progs : List (Prog L D A)} {i j n k : Nat}
  {p p' q q' : Prog L D A} {l₁ l₂ : L} {m₁ m₂ : LockMode} {held₁ held₂ : List (L × LockMode)}

/-- Two calls go on one after the other, each up to a lock. -/
theorem exists_run_two (hij : i ≠ j) (hi : progs[i]? = some p) (hj : progs[j]? = some q)
    (hp : p.after [] n data [] = (data₁, p', held₁))
    (hq : q.after held₁ k data₁ [] = (data₂, q', held₂)) :
    ∃ is z, Run Step (start data progs) is z ∧ z.data = data₂ ∧
      z.queue = (start data progs).queue ∧ z.tasks[i]? = some ⟨p', held₁, false⟩ ∧
      z.tasks[j]? = some ⟨q', held₂, false⟩ ∧
      ∀ u, u ≠ i → u ≠ j → z.tasks[u]? = (start data progs).tasks[u]? := by
  have hnone : ∀ t ∈ (start data progs).tasks, t.held = [] := by
    intro t ht
    obtain ⟨_, -, rfl⟩ := List.mem_map.mp ht
    rfl
  obtain ⟨is₁, y, hr₁, hyd, hyq, hyi, hyo⟩ :=
    exists_run_after [] n (getElem?_start hi data) (fun _ ↦ rfl) fun u t _ ht h hh ↦ by
      rw [hnone t (List.mem_of_getElem? ht)] at hh
      cases hh
  rw [show (start data progs).data = data from rfl, hp] at hyd hyi
  obtain ⟨is₂, z, hr₂, hzd, hzq, hzj, hzo⟩ := exists_run_after held₁ k
    ((hyo j (Ne.symm hij)).trans (getElem?_start hj data)) (fun _ ↦ by rw [hyq]; rfl)
    fun u t hu ht h hh ↦ by
      by_cases hui : u = i
      · subst hui
        cases hyi.symm.trans ht
        exact hh
      · rw [hnone t (List.mem_of_getElem? ((hyo u hui).symm.trans ht))] at hh
        cases hh
  rw [hyd, hq] at hzd hzj
  exact ⟨is₁ ++ is₂, z, hr₁.trans hr₂, hzd, hzq.trans hyq, (hzo i hij).trans hyi, hzj,
    fun u hui huj ↦ (hzo u huj).trans (hyo u hui)⟩

variable (hij : i ≠ j) (hi : progs[i]? = some p) (hj : progs[j]? = some q)
  (hp : p.after [] n data [] = (data₁, .lock l₁ m₁ p', held₁))
  (hq : q.after held₁ k data₁ [] = (data₂, .lock l₂ m₂ q', held₂))
  (h₂ : ∃ h ∈ held₁, h.1 = l₂ ∧ ¬m₂.Shares h.2)
include hij hi hj hp hq h₂

/-- Two calls that each come to ask for a lock that the other one holds do not always return,
whatever is called beside them. -/
theorem not_allReturn_of_cross (h₁ : ∃ h ∈ held₂, h.1 = l₁ ∧ ¬m₁.Shares h.2) :
    ¬AllReturn (start data progs) := by
  obtain ⟨is, z, hr, -, -, hzi, hzj, -⟩ := exists_run_two hij hi hj hp hq
  obtain ⟨v, hs₁, hvi, hvo, -⟩ := step_ask hzi
  obtain ⟨w, hs₂, hwj, hwo, -⟩ := step_ask ((hvo j (Ne.symm hij)).trans hzj)
  have hwi := (hwo i hij).trans hvi
  refine not_allReturn_of_jam (w := [j]) (i := i) ((hr.snoc hs₁).snoc hs₂) ?_
  intro u hu
  obtain rfl | hu := List.mem_cons.mp hu
  · exact ⟨_, _, _, _, hwi, .inl ⟨j, by simp, _, hwj, h₁⟩⟩
  · cases List.mem_singleton.mp hu
    exact ⟨_, _, _, _, hwj, .inl ⟨i, by simp, _, hwi, h₂⟩⟩

/-- Nor do they where the lock that one of them asks for is held by the other one for reading,
and a third call queues up for it before. -/
theorem not_allReturn_of_queue {u : Nat} {m : LockMode} {r : Prog L D A} (hui : u ≠ i)
    (huj : u ≠ j) (hu : progs[u]? = some (.lock l₁ m r))
    (h₁ : ∃ h ∈ held₂, h.1 = l₁ ∧ ¬m.Shares h.2) : ¬AllReturn (start data progs) := by
  obtain ⟨is, z, hr, -, -, hzi, hzj, hzo⟩ := exists_run_two hij hi hj hp hq
  have hzu := (hzo u hui huj).trans (getElem?_start hu data)
  obtain ⟨a, hs₁, haj, hao, -⟩ := step_ask hzj
  obtain ⟨b, hs₂, hbu, hbo, hbq⟩ := step_ask ((hao u huj).trans hzu)
  obtain ⟨c, hs₃, hci, hco, hcq⟩ :=
    step_ask ((hbo i (Ne.symm hui)).trans ((hao i hij).trans hzi))
  have hcu := (hco u hui).trans hbu
  have hcj := (hco j (Ne.symm hij)).trans ((hbo j (Ne.symm huj)).trans haj)
  have hsub : List.Sublist [u, i] (c.queue l₁) := by
    rw [hcq, hbq]
    simp
  refine not_allReturn_of_jam (w := [j, u]) (i := i) (((hr.snoc hs₁).snoc hs₂).snoc hs₃) ?_
  intro v hv
  simp only [List.mem_cons, List.not_mem_nil, or_false] at hv
  obtain rfl | rfl | rfl := hv
  · exact ⟨_, _, _, _, hci, .inr ⟨u, by simp, hsub⟩⟩
  · exact ⟨_, _, _, _, hcj, .inl ⟨i, by simp, _, hci, h₂⟩⟩
  · exact ⟨_, _, _, _, hcu, .inl ⟨j, by simp, _, hcj, h₁⟩⟩

end Crossing

end Executor
end SilverPow.Base
