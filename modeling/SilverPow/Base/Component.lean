import SilverPow.Base.Serial

/-!
# Components whose calls share locked data

The calls of a component are programs. Where each of them keeps its locks until it returns, or
writes nothing, calls made at the same time act as calls made one after another: a run of the
component is a sequence of calls.
-/

namespace SilverPow.Base

variable {L : Type} {D : L → Type} {A : Type} [DecidableEq L]

namespace Executor

/-- In a schedule, one call returns before another begins. -/
def Before (x₀ : Executor L D A) (is : List Nat) (i j : Nat) : Prop :=
  ∃ is₁ is₂ y, is = is₁ ++ is₂ ∧ Run Step x₀ is₁ y ∧
    (∃ t, y.tasks[i]? = some t ∧ (∃ a, t.prog = .ret a) ∧ t.held = []) ∧
    y.tasks[j]? = x₀.tasks[j]?

/-- An order in which the calls, run one after another, lead to the same data and results. It
has all calls that keep their locks, and those that take any as they follow each other. -/
structure SerialOrder (data₀ : ∀ l, D l) (progs : List (Prog L D A)) (is : List Nat)
    (x : Executor L D A) (history : List (Nat × A)) : Prop where
  run : Run (Alone progs) data₀ history x.data
  nodup : (history.map Prod.fst).Nodup
  results : ∀ i a, (i, a) ∈ history → ∃ t, x.tasks[i]? = some t ∧ t.prog = .ret a
  all : ∀ i p, progs[i]? = some p → p.TwoPhase [] → i ∈ history.map Prod.fst
  order : ∀ i j p q, progs[i]? = some p → progs[j]? = some q → p.TwoPhase [] → q.TwoPhase [] →
    p.Locks → q.Locks → Before (start data₀ progs) is i j →
      [i, j].Sublist (history.map Prod.fst)

/-- A step adds and removes no call. -/
theorem length_tasks_of_run {x₀ x : Executor L D A} {is : List Nat} (hr : Run Step x₀ is x) :
    x.tasks.length = x₀.tasks.length := by
  refine hr.invariant (fun x ↦ x.tasks.length = x₀.tasks.length) rfl ?_
  rintro y i y' hy hs
  rw [← hy]
  cases advances_of_step hs with
  | drop | ask | grant | unlock | get | set => exact List.length_set

/-- Calls that keep their locks until they return, among calls that write nothing, can be put
in an order. -/
theorem exists_serialOrder {data₀ : ∀ l, D l} {progs : List (Prog L D A)} {x : Executor L D A}
    {is : List Nat} (h : ∀ p ∈ progs, p.TwoPhase [] ∨ p.Silent)
    (hr : Run Step (start data₀ progs) is x) (hfin : x.Finished) :
    ∃ history, SerialOrder data₀ progs is x history := by
  obtain ⟨_, _, hs, hbefore⟩ := exists_serial h hr
  obtain ⟨history, base, hs, hprefix, hfinish⟩ := hs.finish hfin progs.length
  have hdata : x.data = base := by
    funext l
    refine hs.clean_of_reads fun t ht b hb ↦ ?_
    rw [(hfin t ht).2] at hb
    cases hb
  have hall : ∀ i p, progs[i]? = some p → p.TwoPhase [] → i ∈ history.map Prod.fst := by
    intro i p hp h2
    obtain ⟨hi, -⟩ := List.getElem?_eq_some_iff.mp hp
    refine hfinish i hi p hp ?_ h2
    rw [length_tasks_of_run hr, start, List.length_map]
    exact hi
  refine ⟨history, hdata ▸ hs.run, hs.nodup, hs.returned, hall, ?_⟩
  rintro i j p q hp hq h2p h2q hlp hlq ⟨is₁, is₂, y, hsplit, hy, ⟨t, ht, ⟨a, ha⟩, hheld⟩, hj⟩
  obtain ⟨history₁, base₁, hs₁, hle⟩ := hbefore is₁ is₂ y hsplit hy
  -- The first call has had its effect by then, and the second one has not.
  have hi : i ∈ history₁.map Prod.fst := by
    by_contra hn
    rw [← hs₁.begun i t p ht hp h2p hn hheld, ha] at hlp
    exact hlp
  have hnj : j ∉ history₁.map Prod.fst := by
    intro hmem
    rw [start, List.getElem?_map, hq] at hj
    obtain ⟨b, hb⟩ := hs₁.ret_of_mem hj hmem
    rw [show q = .ret b from hb] at hlq
    exact hlq
  obtain ⟨rest, hrest⟩ := hle.trans hprefix
  have hmem := hall j q hq h2q
  rw [← hrest, List.map_append, List.mem_append] at hmem
  rw [← hrest, List.map_append]
  exact (List.singleton_sublist.mpr hi).append
    (List.singleton_sublist.mpr (hmem.resolve_left hnj))

/-! ### Components -/

/-- The programs of a component do alone what its calls do to its state, as long as the state
keeps to `I`, and each keeps its locks until it returns or writes nothing. -/
structure Implements {S C : Type} (I : S → Prop) (data : S → ∀ l, D l) (prog : C → Prog L D A)
    (apply : S → C → A × S) : Prop where
  exec : ∀ s c, I s → (prog c).exec (data s) = ((apply s c).1, data (apply s c).2)
  keeps : ∀ s c, I s → I (apply s c).2
  whole : ∀ c, (prog c).TwoPhase [] ∨ (prog c).Silent

/-- An order in which the calls of a component, one after another, lead from a state to another
and have their results. -/
structure CallOrder {S C : Type} (data : S → ∀ l, D l) (prog : C → Prog L D A)
    (apply : S → C → A × S) (s : S) (calls : List C) (is : List Nat) (x : Executor L D A)
    (history : List (Nat × A)) (s' : S) : Prop where
  run : Run (fun t (e : Nat × A) t' ↦ ∃ c, calls[e.1]? = some c ∧ apply t c = (e.2, t')) s
    history s'
  reached : x.data = data s'
  nodup : (history.map Prod.fst).Nodup
  results : ∀ i a, (i, a) ∈ history → ∃ t, x.tasks[i]? = some t ∧ t.prog = .ret a
  all : ∀ i c, calls[i]? = some c → (prog c).TwoPhase [] → i ∈ history.map Prod.fst
  order : ∀ i j c d, calls[i]? = some c → calls[j]? = some d → (prog c).TwoPhase [] →
    (prog d).TwoPhase [] → (prog c).Locks → (prog d).Locks →
    Before (start (data s) (calls.map prog)) is i j → [i, j].Sublist (history.map Prod.fst)

/-- An order has each call at most once. -/
theorem CallOrder.length_le {S C : Type} {data : S → ∀ l, D l} {prog : C → Prog L D A}
    {apply : S → C → A × S} {s s' : S} {calls : List C} {is : List Nat} {x : Executor L D A}
    {history : List (Nat × A)} (h : CallOrder data prog apply s calls is x history s') :
    history.length ≤ calls.length := by
  have hlt : ∀ e ∈ history, e.1 < calls.length := by
    refine h.run.historyInvariant (fun history _ ↦ ∀ e ∈ history, e.1 < calls.length)
      (fun _ he ↦ (nomatch he)) ?_
    rintro history t e t' hlt ⟨c, hc, -⟩ e' he'
    obtain he' | he' := List.mem_append.mp he'
    · exact hlt e' he'
    · cases List.mem_singleton.mp he'
      exact (List.getElem?_eq_some_iff.mp hc).1
  have hsub : history.map Prod.fst ⊆ List.range calls.length := by
    intro i hi
    obtain ⟨e, he, rfl⟩ := List.mem_map.mp hi
    exact List.mem_range.mpr (hlt e he)
  simpa using (List.subperm_of_subset h.nodup hsub).length_le

/-- The result of a call that keeps its locks is the one that the order has for it. -/
theorem CallOrder.mem_of_ret {S C : Type} {data : S → ∀ l, D l} {prog : C → Prog L D A}
    {apply : S → C → A × S} {s s' : S} {calls : List C} {is : List Nat} {x : Executor L D A}
    {history : List (Nat × A)} (h : CallOrder data prog apply s calls is x history s') {i : Nat}
    {c : C} (hi : calls[i]? = some c) (h2 : (prog c).TwoPhase []) {t : Task L D A}
    (ht : x.tasks[i]? = some t) {a : A} (ha : t.prog = .ret a) : (i, a) ∈ history := by
  obtain ⟨⟨_, b⟩, hb, rfl⟩ := List.mem_map.mp (h.all i c hi h2)
  obtain ⟨u, hu, hub⟩ := h.results _ b hb
  cases ht.symm.trans hu
  cases ha.symm.trans hub
  exact hb

/-- The calls of a component that are made at the same time can be put in an order. -/
theorem Implements.exists_callOrder {S C : Type} {I : S → Prop} {data : S → ∀ l, D l}
    {prog : C → Prog L D A} {apply : S → C → A × S} (h : Implements I data prog apply) {s : S}
    (hs : I s) {calls : List C} {x : Executor L D A} {is : List Nat}
    (hr : Run Step (start (data s) (calls.map prog)) is x) (hfin : x.Finished) :
    ∃ history s', CallOrder data prog apply s calls is x history s' := by
  obtain ⟨history, ho⟩ := exists_serialOrder
    (fun p hp ↦ by obtain ⟨c, -, rfl⟩ := List.mem_map.mp hp; exact h.whole c) hr hfin
  obtain ⟨s', hrun, hdata⟩ : ∃ s', (Run (fun t (e : Nat × A) t' ↦
      ∃ c, calls[e.1]? = some c ∧ apply t c = (e.2, t')) s history s' ∧ I s') ∧
      x.data = data s' := by
    refine ho.run.historyInvariant (fun history d ↦ ∃ s', (Run _ s history s' ∧ I s') ∧
      d = data s') ⟨s, ⟨.nil, hs⟩, rfl⟩ ?_
    rintro history d ⟨i, a⟩ d' ⟨t, ⟨hrun, ht⟩, rfl⟩ ⟨p, hp, hexec⟩
    obtain ⟨c, hc, rfl⟩ := Option.map_eq_some_iff.mp (List.getElem?_map ▸ hp)
    rw [h.exec t c ht, Prod.mk.injEq] at hexec
    refine ⟨(apply t c).2, ⟨hrun.snoc ⟨c, hc, Prod.ext hexec.1 rfl⟩, h.keeps t c ht⟩, hexec.2.symm⟩
  exact ⟨history, s', hrun.1, hdata, ho.nodup, ho.results,
    fun i c hc ↦ ho.all i _ (getElem?_progs hc prog),
    fun i j c d hc hd ↦ ho.order i j _ _ (getElem?_progs hc prog) (getElem?_progs hd prog)⟩

end Executor
end SilverPow.Base
