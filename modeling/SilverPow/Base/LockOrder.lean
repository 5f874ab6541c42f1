import SilverPow.Base.Returns

/-!
# Lock orders

Calls that take the locks in one order all return: of the calls that wait, the one that waits
for the last lock of the order waits for a call that can go on. Locks that are only ever read
keep nobody waiting and have no place in the order.
-/

namespace SilverPow.Base

variable {L : Type} {D : L → Type} {A B : Type} [DecidableEq L]

/-- The program, with the given locks held, takes locks by ascending rank. Rank zero is for
locks that are only read. -/
@[simp] def Prog.Ordered (rank : L → Nat) : List (L × LockMode) → Prog L D A → Prop
  | _, .ret _ => True
  | held, .lock l m p =>
    (rank l = 0 ∧ m = .read ∨ 0 < rank l ∧ ∀ h ∈ held, rank h.1 < rank l) ∧
      p.Ordered rank ((l, m) :: held)
  | held, .unlock l p => p.Ordered rank (held.eraseP (·.1 = l))
  | held, .get _ p => ∀ d, (p d).Ordered rank held
  | held, .set _ _ p => p.Ordered rank held

/-- A branch is in order if both ways are. -/
@[simp] theorem Prog.ordered_ite {rank : L → Nat} {c : Prop} [Decidable c]
    {held : List (L × LockMode)} {p q : Prog L D A} :
    (if c then p else q).Ordered rank held ↔
      (c → p.Ordered rank held) ∧ (¬c → q.Ordered rank held) := by
  by_cases h : c <;> simp [h]

namespace Executor

variable {rank : L → Nat} {x x' : Executor L D A}

/-! ### Calls in order -/

/-- Every call goes on in order, and holds locks of rank zero only for reading. -/
def InOrder (rank : L → Nat) (x : Executor L D A) : Prop :=
  ∀ t ∈ x.tasks, t.prog.Ordered rank t.held ∧ ∀ h ∈ t.held, rank h.1 = 0 → h.2 = .read

/-- What a call may be next goes on in order. -/
theorem inOrder_next {t t' : Task L D A} (h : t'.Next t)
    (ht : t.prog.Ordered rank t.held ∧ ∀ h ∈ t.held, rank h.1 = 0 → h.2 = .read) :
    t'.prog.Ordered rank t'.held ∧ ∀ h ∈ t'.held, rank h.1 = 0 → h.2 = .read := by
  obtain ⟨ho, hz⟩ := ht
  cases h with
  | drop => exact ⟨trivial, fun h hh ↦ hz h (List.mem_cons_of_mem _ hh)⟩
  | ask => exact ⟨ho, hz⟩
  | grant =>
    refine ⟨ho.2, fun h hh hr ↦ ?_⟩
    obtain rfl | hh := List.mem_cons.mp hh
    · obtain ⟨-, hm⟩ | ⟨hpos, -⟩ := ho.1
      · exact hm
      · exact absurd hr hpos.ne'
    · exact hz h hh hr
  | unlock => exact ⟨ho, fun h hh ↦ hz h (List.mem_of_mem_eraseP hh)⟩
  | get => exact ⟨ho _, hz⟩
  | set => exact ⟨ho, hz⟩

/-- Steps keep the calls in order. -/
theorem InOrder.step (h : InOrder rank x) {i : Nat} (ha : x.Advances i x') : InOrder rank x' := by
  obtain ⟨t, t', ht, hnext, htasks⟩ := ha.next
  intro u hu
  rw [htasks] at hu
  obtain hu | rfl := List.mem_or_eq_of_mem_set hu
  · exact h u hu
  · exact inOrder_next hnext (h t (List.mem_of_getElem? ht))

section Waiting

variable (hq : Queued x) (ho : InOrder rank x) (hend : ∀ i, x.advance i = none)
include hq ho hend

/-- Where no call can go on, a call that waits finds the first of the queue kept waiting by a
call that holds the lock. -/
theorem exists_holder {i : Nat} {l : L} {m : LockMode} {p : Prog L D A}
    {held : List (L × LockMode)} (ht : x.tasks[i]? = some ⟨.lock l m p, held, true⟩) :
    0 < rank l ∧ ∃ t ∈ x.tasks, ∃ h ∈ t.held, h.1 = l := by
  obtain ⟨_, _, _, ⟨⟩, hi⟩ := hq.asked i _ ht rfl
  -- The first of the queue is not served, so that the lock is not free.
  obtain ⟨j, queue, hl⟩ := List.exists_cons_of_ne_nil (List.ne_nil_of_mem hi)
  obtain ⟨m', p', held', hj⟩ := hq.waits l j (by rw [hl]; exact List.mem_cons_self)
  have hfree : ¬x.Free l m' := by
    obtain ⟨⟨_, ⟨⟩⟩, -⟩ | ⟨-, _, _, _, ⟨⟩, hno⟩ := advance_eq_none hj (hend j)
    exact fun hfree ↦ hno ⟨by rw [hl]; rfl, hfree⟩
  unfold Free at hfree
  push Not at hfree
  obtain ⟨t, htm, h, hh, hhl, hshares⟩ := hfree
  refine ⟨?_, t, htm, h, hh, hhl⟩
  obtain ⟨hz, hm⟩ | ⟨hpos, -⟩ := (ho _ (List.mem_of_getElem? hj)).1.1
  · exact absurd ⟨hm, (ho t htm).2 h hh (by rwa [hhl])⟩ hshares
  · exact hpos

/-- Where no call can go on, a call that waits is kept waiting by one that waits for a lock of
higher rank. -/
theorem exists_higher {i : Nat} {l : L} {m : LockMode} {p : Prog L D A}
    {held : List (L × LockMode)} (ht : x.tasks[i]? = some ⟨.lock l m p, held, true⟩) :
    ∃ (j : Nat) (l' : L) (m' : LockMode) (p' : Prog L D A) (held' : List (L × LockMode)),
      x.tasks[j]? = some ⟨.lock l' m' p', held', true⟩ ∧ rank l < rank l' := by
  obtain ⟨-, ⟨prog, held', waiting⟩, htm, h, hh, rfl⟩ := exists_holder hq ho hend ht
  obtain ⟨j, hj⟩ := List.getElem?_of_mem htm
  obtain ⟨-, hnil⟩ | ⟨hw, l', m', p', hlock, -⟩ := advance_eq_none hj (hend j)
  · dsimp only at hh hnil
    rw [hnil] at hh
    cases hh
  · dsimp only at hw hlock
    subst hw hlock
    have hpos := (exists_holder hq ho hend hj).1
    obtain ⟨hz, -⟩ | ⟨-, hlt⟩ := (ho _ htm).1.1
    · exact absurd hz hpos.ne'
    · exact ⟨j, l', m', p', held', hj, hlt h hh⟩

/-- Where no call can go on, none waits. -/
theorem not_waiting_of_end {i : Nat} {l : L} {m : LockMode} {p : Prog L D A}
    {held : List (L × LockMode)} : x.tasks[i]? ≠ some ⟨.lock l m p, held, true⟩ := by
  let wanted (t : Task L D A) : Nat := match t.prog with
    | .lock l _ _ => rank l
    | _ => 0
  intro ht
  -- Calls would wait for locks of ever higher rank, but there are only so many calls.
  have hhigher : ∀ n, ∃ (j : Nat) (l' : L) (m' : LockMode) (p' : Prog L D A)
      (held' : List (L × LockMode)),
      x.tasks[j]? = some ⟨.lock l' m' p', held', true⟩ ∧ n ≤ rank l' := by
    intro n
    induction n with
    | zero => exact ⟨i, l, m, p, held, ht, Nat.zero_le _⟩
    | succ n ih =>
      obtain ⟨j, l₁, m₁, p₁, held₁, hj, hle⟩ := ih
      obtain ⟨k, l₂, m₂, p₂, held₂, hk, hlt⟩ := exists_higher hq ho hend hj
      exact ⟨k, l₂, m₂, p₂, held₂, hk, by omega⟩
  obtain ⟨j, l', m', p', held', hj, hle⟩ := hhigher ((x.tasks.map wanted).sum + 1)
  have hsum : wanted ⟨.lock l' m' p', held', true⟩ ≤ (x.tasks.map wanted).sum :=
    List.le_sum_of_mem (List.mem_map_of_mem (List.mem_of_getElem? hj))
  change rank l' ≤ _ at hsum
  omega

end Waiting

/-- Calls that take the locks in one order all return. -/
theorem allReturn_of_ordered (rank : L → Nat) {progs : List (Prog L D A)}
    (h : ∀ p ∈ progs, p.Ordered rank []) (data : ∀ l, D l) : AllReturn (start data progs) where
  ends run _ := Executor.ends run
  returned is x hr hend := by
    have ho : InOrder rank x := by
      refine hr.invariant (InOrder rank) (fun t ht ↦ ?_) fun _ _ _ h hs ↦
        h.step (advances_of_step hs)
      obtain ⟨p, hp, rfl⟩ := List.mem_map.mp ht
      exact ⟨h p hp, fun h hh ↦ (nomatch hh)⟩
    intro ⟨prog, held, waiting⟩ ht
    obtain ⟨i, hi⟩ := List.getElem?_of_mem ht
    obtain hfin | ⟨hw, l, m, p, hlock, -⟩ := advance_eq_none hi (hend i)
    · exact hfin
    · dsimp only at hw hlock
      subst hw hlock
      exact absurd hi (not_waiting_of_end (queued_of_run hr) ho hend)

end Executor
end SilverPow.Base
