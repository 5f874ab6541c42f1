import Mathlib.Data.List.Dedup
import Mathlib.Data.List.Infix
import Mathlib.Data.List.Perm.Subperm
import SilverPow.Base.Log

/-!
# Runs of a labelled transition system

A run starts in a fixed state and takes any number of steps, each labelled with the
event that caused it. An invariant is proved for one step and carried to every state
that a run reaches; a history invariant may also speak about the events so far. A
guarded system takes only the steps whose event meets a condition on the state before.
-/

namespace SilverPow.Base

variable {S E : Type}

/-- The states reachable from `s₀`, with the events on the way in order. -/
inductive Run (step : S → E → S → Prop) (s₀ : S) : List E → S → Prop
  | nil : Run step s₀ [] s₀
  | snoc {es : List E} {s s' : S} {e : E} :
      Run step s₀ es s → step s e s' → Run step s₀ (es ++ [e]) s'

/-- The steps of a system whose event meets `guard` in the state before the step. -/
def Guarded (guard : S → E → Prop) (step : S → E → S → Prop) (s : S) (e : E) (s' : S) : Prop :=
  guard s e ∧ step s e s'

namespace Run

variable {step : S → E → S → Prop} {s₀ : S}

/-- A property of the start that every step keeps holds in every reached state. -/
theorem invariant (I : S → Prop) (start : I s₀)
    (kept : ∀ s e s', I s → step s e s' → I s') {es : List E} {s : S}
    (h : Run step s₀ es s) : I s := by
  induction h with
  | nil => exact start
  | snoc _ hs ih => exact kept _ _ _ ih hs

/-- The same for a property that also reads the events of the run so far. -/
theorem historyInvariant (I : List E → S → Prop) (start : I [] s₀)
    (kept : ∀ es s e s', I es s → step s e s' → I (es ++ [e]) s') {es : List E} {s : S}
    (h : Run step s₀ es s) : I es s := by
  induction h with
  | nil => exact start
  | snoc _ hs ih => exact kept _ _ _ _ ih hs

/-- Computed steps form a run. -/
theorem foldl (f : S → E → S) (s₀ : S) (es : List E) :
    Run (fun s e s' ↦ s' = f s e) s₀ es (es.foldl f s₀) := by
  suffices h : ∀ es' s, Run (fun s e s' ↦ s' = f s e) s₀ es' s →
      Run (fun s e s' ↦ s' = f s e) s₀ (es' ++ es) (es.foldl f s) by
    exact h [] s₀ .nil
  induction es with
  | nil => intro es' s hr; rwa [List.append_nil]
  | cons e es ih =>
    intro es' s hr
    rw [List.append_cons]
    exact ih (es' ++ [e]) (f s e) (.snoc hr rfl)

/-- Steps that may fail extend a run when none of them does. -/
theorem foldlM {f : S → E → Option S} {es es' : List E} {s s' : S}
    (h : Run (fun s e s' ↦ f s e = some s') s₀ es s) (hs : es'.foldlM f s = some s') :
    Run (fun s e s' ↦ f s e = some s') s₀ (es ++ es') s' := by
  induction es' generalizing es s with
  | nil =>
    cases hs
    rwa [List.append_nil]
  | cons e es' ih =>
    rw [List.foldlM_cons] at hs
    obtain ⟨t, ht, hs⟩ := Option.bind_eq_some_iff.mp hs
    rw [List.append_cons]
    exact ih (.snoc h ht) hs

/-- A run after a first step. -/
theorem cons {s s' : S} {e : E} {es : List E} (hs : step s₀ e s) (h : Run step s es s') :
    Run step s₀ (e :: es) s' := by
  induction h with
  | nil => exact (Run.snoc .nil hs : Run step s₀ ([] ++ [e]) _)
  | snoc _ hs' ih => exact .snoc ih hs'

/-- A run goes on where another one has ended. -/
theorem trans {s s' : S} {es es' : List E} (h : Run step s₀ es s) (h' : Run step s es' s') :
    Run step s₀ (es ++ es') s' := by
  induction h' with
  | nil => rwa [List.append_nil]
  | snoc _ hs' ih =>
    rw [← List.append_assoc]
    exact .snoc ih hs'

/-- Steps are taken one after another until a state with a property. -/
theorem exists_foldlM_cons {f : S → E → Option S} {Q : S → Prop} {s t : S} {e : E} {es : List E}
    (h : f s e = some t) (hs : ∃ s', es.foldlM f t = some s' ∧ Q s') :
    ∃ s', (e :: es).foldlM f s = some s' ∧ Q s' := by
  rw [List.foldlM_cons, h]
  exact hs

/-- A step relation with fewer requirements has at least the same runs. -/
theorem mono {step' : S → E → S → Prop} (hle : ∀ s e s', step s e s' → step' s e s')
    {es : List E} {s : S} (h : Run step s₀ es s) : Run step' s₀ es s := by
  induction h with
  | nil => exact .nil
  | snoc _ hs ih => exact .snoc ih (hle _ _ _ hs)

/-- A guarded run is a run. -/
theorem of_guarded {guard : S → E → Prop} {es : List E} {s : S}
    (h : Run (Guarded guard step) s₀ es s) : Run step s₀ es s :=
  h.mono fun _ _ _ hs ↦ hs.2

/-- Before any step a run is only in its starting state. -/
theorem nil_iff {s : S} : Run step s₀ [] s ↔ s = s₀ := by
  constructor
  · intro h
    generalize hl : ([] : List E) = l at h
    cases h with
    | nil => rfl
    | snoc => cases (List.nil_eq_append_iff.mp hl).2
  · rintro rfl
    exact .nil

/-- The last event of a run, and the run before it. -/
theorem snoc_iff {es : List E} {e : E} {s' : S} :
    Run step s₀ (es ++ [e]) s' ↔ ∃ s, Run step s₀ es s ∧ step s e s' := by
  constructor
  · intro h
    generalize hl : es ++ [e] = l at h
    cases h with
    | nil => cases es <;> cases hl
    | snoc hr hs =>
      obtain ⟨rfl, he⟩ := List.append_inj' hl rfl
      cases he
      exact ⟨_, hr, hs⟩
  · rintro ⟨s, hr, hs⟩
    exact .snoc hr hs

/-- Where steps are computed, the events of a run determine the state reached. -/
theorem deterministic {f : S → E → S} (hf : ∀ s e s', step s e s' → s' = f s e) {es : List E}
    {s t : S} (hs : Run step s₀ es s) (ht : Run step s₀ es t) : s = t := by
  induction hs generalizing t with
  | nil => exact (nil_iff.mp ht).symm
  | snoc _ hs ih =>
    obtain ⟨u, hu, hstep⟩ := snoc_iff.mp ht
    cases ih hu
    rw [hf _ _ _ hs, hf _ _ _ hstep]

/-- Where steps are computed, a run ends in the state that its events compute. -/
theorem eq_foldl {f : S → E → S} (hf : ∀ s e s', step s e s' → s' = f s e) {es : List E} {s : S}
    (h : Run step s₀ es s) : s = es.foldl f s₀ := by
  induction h with
  | nil => rfl
  | snoc _ hs ih => rw [List.foldl_append, ← ih, List.foldl_cons, List.foldl_nil, hf _ _ _ hs]

/-- What the events of a computed run show, each in the state before it. -/
def collect {A : Type} (f : S → E → S) (observe : S → E → Option A) : S → List E → List A
  | _, [] => []
  | s, e :: es => (observe s e).toList ++ collect f observe (f s e) es

/-- What a run shows is what its first events show and then what the others do. -/
theorem collect_append {A : Type} (f : S → E → S) (observe : S → E → Option A) (s : S)
    (es es' : List E) :
    collect f observe s (es ++ es') =
      collect f observe s es ++ collect f observe (es.foldl f s) es' := by
  induction es generalizing s with
  | nil => rfl
  | cons e es ih => rw [List.cons_append, collect, collect, ih, List.append_assoc, List.foldl_cons]

/-- One more event adds what it shows in the state that the run has reached. -/
theorem collect_concat {A : Type} {f : S → E → S} (hf : ∀ s e s', step s e s' → s' = f s e)
    (observe : S → E → Option A) {es : List E} {s : S} (h : Run step s₀ es s) (e : E) :
    collect f observe s₀ (es ++ [e]) = collect f observe s₀ es ++ (observe s e).toList := by
  rw [collect_append, ← eq_foldl hf h, collect, collect, List.append_nil]

/-- What events show is part of what they carry. -/
theorem collect_sublist {A : Type} {f : S → E → S} {observe : S → E → Option A}
    {carried : E → Option A} (h : ∀ s e a, observe s e = some a → carried e = some a) (s : S)
    (es : List E) : (collect f observe s es).Sublist (es.filterMap carried) := by
  induction es generalizing s with
  | nil => exact .slnil
  | cons e es ih =>
    rw [collect, List.filterMap_cons]
    cases ho : observe s e with
    | none =>
      cases carried e with
      | none => exact ih _
      | some a => exact (ih _).cons a
    | some a =>
      rw [h s e a ho]
      exact (ih _).cons_cons a

/-- Extending a run by one step keeps it guarded exactly when it was guarded so far and
the step meets the guard. -/
theorem guarded_snoc_iff {f : S → E → S} (hf : ∀ s e s', step s e s' → s' = f s e)
    {guard : S → E → Prop} {es : List E} {e : E} {s s' : S} (hr : Run step s₀ es s)
    (hs : step s e s') :
    Run (Guarded guard step) s₀ (es ++ [e]) s' ↔ Run (Guarded guard step) s₀ es s ∧ guard s e := by
  rw [snoc_iff]
  constructor
  · rintro ⟨t, ht, hg, -⟩
    cases deterministic hf hr ht.of_guarded
    exact ⟨ht, hg⟩
  · rintro ⟨ht, hg⟩
    exact ⟨s, ht, hg, hs⟩

/-- A history property holds in every state that a run passes through. -/
def Always (step : S → E → S → Prop) (s₀ : S) (P : List E → S → Prop) (es : List E) : Prop :=
  ∀ es' s, es' <+: es → Run step s₀ es' s → P es' s

/-- A property holds always in the empty run if it holds at the start. -/
theorem always_nil {P : List E → S → Prop} (h : P [] s₀) : Always step s₀ P [] := by
  intro es' s hp hr
  cases List.prefix_nil.mp hp
  cases nil_iff.mp hr
  exact h

/-- Where steps are computed, a property holds always in a run that takes one more step
exactly when it held always before and holds after the step. -/
theorem always_snoc_iff {f : S → E → S} (hf : ∀ s e s', step s e s' → s' = f s e)
    {P : List E → S → Prop} {es : List E} {e : E} {s' : S} (h : Run step s₀ (es ++ [e]) s') :
    Always step s₀ P (es ++ [e]) ↔ Always step s₀ P es ∧ P (es ++ [e]) s' := by
  constructor
  · intro ha
    exact ⟨fun es' t hp ↦ ha es' t (hp.trans (List.prefix_append _ _)),
      ha _ _ List.prefix_rfl h⟩
  · rintro ⟨ha, hs⟩ es' t hp hr
    obtain rfl | hp := List.prefix_concat_iff.mp hp
    · rwa [deterministic hf hr h]
    · exact ha es' t hp hr

/-- Where a step keeps a history property exactly if it is guarded, the property holds
always in a run exactly when all its steps are guarded. -/
theorem always_iff_guarded_of_next {f : S → E → S} (hf : ∀ s e s', step s e s' → s' = f s e)
    {P : List E → S → Prop} {guard : S → E → Prop} (start : P [] s₀) {es : List E} {s : S}
    (h : Run step s₀ es s)
    (next : ∀ es' s e s', es' ++ [e] <+: es → Run step s₀ es' s → P es' s → step s e s' →
      (P (es' ++ [e]) s' ↔ guard s e)) :
    Always step s₀ P es ↔ Run (Guarded guard step) s₀ es s := by
  induction h with
  | nil => exact ⟨fun _ ↦ .nil, fun _ ↦ always_nil start⟩
  | @snoc es s s' e hr hs ih =>
    have hi := ih fun es' t e' t' hp ↦ next es' t e' t' (hp.trans (List.prefix_append _ _))
    rw [always_snoc_iff hf (.snoc hr hs), guarded_snoc_iff hf hr hs, hi]
    refine and_congr_right fun hg ↦ next es s e s' List.prefix_rfl hr ?_ hs
    exact hi.mpr hg es s List.prefix_rfl hr

/-- Where the step of an event keeps a history property exactly if the event stands in a
relation to the events before it, the property holds always in a run exactly when each event
of the run stands in the relation. -/
theorem always_iff_each {f : S → E → S} (hf : ∀ s e s', step s e s' → s' = f s e)
    {P : List E → S → Prop} {Q : List E → E → Prop} (start : P [] s₀)
    (next : ∀ es s e s', Run step s₀ es s → P es s → step s e s' → (P (es ++ [e]) s' ↔ Q es e))
    {es : List E} {s : S} (h : Run step s₀ es s) : Always step s₀ P es ↔ Log.Each Q es := by
  induction h with
  | nil => exact iff_of_true (always_nil start) Log.each_nil
  | @snoc es s s' e hr hs ih =>
    rw [always_snoc_iff hf (.snoc hr hs), Log.each_concat, ← ih]
    apply and_congr_right
    intro ha
    exact next es s e s' hr (ha es s List.prefix_rfl hr) hs

/-- Where each state counts for a key at most what the run has shown with that key, and all
that the run shows is different, no state on the way counts more than the different things
that the events carry with that key. -/
theorem always_le_distinct {A K : Type} [DecidableEq A] [DecidableEq K] {f : S → E → S}
    {observe : S → E → Option A} {carried : E → Option A} {key : A → K} {count : S → K → Nat}
    (hcarried : ∀ s e a, observe s e = some a → carried e = some a)
    (hcount : ∀ es s, Run step s₀ es s →
      ∀ k, count s k ≤ ((collect f observe s₀ es).filter (key · = k)).length)
    {es : List E} (hn : (collect f observe s₀ es).Nodup) :
    Always step s₀ (fun es s ↦
      ∀ k, count s k ≤ ((es.filterMap carried).filter (key · = k)).dedup.length) es := by
  rintro es' s ⟨rest, rfl⟩ hr k
  rw [collect_append] at hn
  have hsub := (collect_sublist (f := f) hcarried s₀ es').filter (key · = k)
  have hperm := List.subperm_of_subset ((List.nodup_append.mp hn).1.filter (key · = k))
    fun a ha ↦ List.mem_dedup.mpr (hsub.subset ha)
  exact (hcount es' s hr k).trans hperm.length_le

/-- A property of states that every guarded step keeps, through an invariant `K` that
implies it, and that an unguarded step breaks, holds always in a run exactly when all its
steps are guarded; `I` is what every step keeps. -/
theorem always_iff_guarded {f : S → E → S} (hf : ∀ s e s', step s e s' → s' = f s e)
    {I K P : S → Prop} {guard : S → E → Prop} (startI : I s₀) (startK : K s₀)
    (keptI : ∀ s e s', I s → step s e s' → I s')
    (keptK : ∀ s e s', I s → K s → guard s e → step s e s' → K s')
    (implies : ∀ s, I s → K s → P s)
    (needed : ∀ s e s', I s → K s → step s e s' → P s' → guard s e) {es : List E} {s : S}
    (h : Run step s₀ es s) :
    Always step s₀ (fun _ ↦ P) es ↔ Run (Guarded guard step) s₀ es s := by
  have hK : ∀ {es s}, Run (Guarded guard step) s₀ es s → K s := by
    intro es s hr
    induction hr with
    | nil => exact startK
    | snoc hr hs ih => exact keptK _ _ _ (hr.of_guarded.invariant I startI keptI) ih hs.1 hs.2
  induction h with
  | nil => exact ⟨fun _ ↦ .nil, fun _ ↦ always_nil (implies _ startI startK)⟩
  | @snoc es s s' e hr hs ih =>
    have hi := hr.invariant I startI keptI
    rw [always_snoc_iff hf (.snoc hr hs)]
    constructor
    · rintro ⟨ha, hp⟩
      exact .snoc (ih.mp ha) ⟨needed _ _ _ hi (hK (ih.mp ha)) hs hp, hs⟩
    · intro hg
      exact ⟨ih.mpr ((guarded_snoc_iff hf hr hs).mp hg).1,
        implies _ (keptI _ _ _ hi hs) (hK hg)⟩

end Run
end SilverPow.Base
