import SilverPow.Base.Locks

/-!
# Calls that keep their locks are serial

A call that gives back no lock before it returns, and reads and writes only what it holds, has
its effect at one moment: the data that it has seen stays as it was until then. Any schedule of
such calls, and of calls that write nothing, therefore leaves the data and the results of the
calls run one after another, in an order that keeps a call before those that begin after it has
returned.
-/

namespace SilverPow.Base

variable {L : Type} {D : L → Type} {A : Type}

namespace Prog

/-- The program, with the given locks held, gives back none of them, reads what it holds and
writes what it holds for writing. -/
@[simp] def TwoPhase : List (L × LockMode) → Prog L D A → Prop
  | _, .ret _ => True
  | held, .lock l m p => p.TwoPhase ((l, m) :: held)
  | _, .unlock _ _ => False
  | held, .get l p => l ∈ held.map Prod.fst ∧ ∀ d, (p d).TwoPhase held
  | held, .set l _ p => (l, .write) ∈ held ∧ p.TwoPhase held

/-- The program writes nothing. -/
@[simp] def Silent : Prog L D A → Prop
  | .ret _ => True
  | .lock _ _ p | .unlock _ p => p.Silent
  | .get _ p => ∀ d, (p d).Silent
  | .set _ _ _ => False

/-- The program begins by taking a lock. -/
def Locks : Prog L D A → Prop
  | .lock _ _ _ => True
  | _ => False

/-- A branch keeps its locks if both ways do. -/
@[simp] theorem twoPhase_ite {c : Prop} [Decidable c] {held : List (L × LockMode)}
    {p q : Prog L D A} :
    (if c then p else q).TwoPhase held ↔ (c → p.TwoPhase held) ∧ (¬c → q.TwoPhase held) := by
  by_cases h : c <;> simp [h]

/-- A branch writes nothing if both ways do not. -/
@[simp] theorem silent_ite {c : Prop} [Decidable c] {p q : Prog L D A} :
    (if c then p else q).Silent ↔ (c → p.Silent) ∧ (¬c → q.Silent) := by
  by_cases h : c <;> simp [h]

end Prog

variable [DecidableEq L]

/-- Data, with what is held taken from elsewhere. -/
def overlay (held : List (L × LockMode)) (data base : ∀ l, D l) : ∀ l, D l :=
  fun l ↦ if l ∈ held.map Prod.fst then data l else base l

/-- Without locks nothing is taken. -/
@[simp] theorem overlay_nil (data base : ∀ l, D l) : overlay [] data base = base := rfl

/-- What is held is taken. -/
theorem overlay_of_mem {held : List (L × LockMode)} {l : L} (h : l ∈ held.map Prod.fst)
    (data base : ∀ l, D l) : overlay held data base l = data l := if_pos h

/-- What is not held is not. -/
theorem overlay_of_notMem {held : List (L × LockMode)} {l : L} (h : l ∉ held.map Prod.fst)
    (data base : ∀ l, D l) : overlay held data base l = base l := if_neg h

/-- Taking one piece more changes nothing where both agree. -/
theorem overlay_cons {held : List (L × LockMode)} {l : L} (m : LockMode) {data base : ∀ l, D l}
    (h : data l = base l) : overlay ((l, m) :: held) data base = overlay held data base := by
  funext l'
  by_cases hl : l' ∈ held.map Prod.fst
  · rw [overlay_of_mem hl, overlay_of_mem (List.mem_cons_of_mem _ hl)]
  · rw [overlay_of_notMem hl]
    by_cases hll : l' = l
    · subst hll
      rw [overlay_of_mem List.mem_cons_self, h]
    · exact overlay_of_notMem (by simp [hll, hl]) _ _

/-- A piece that is held is written in either. -/
theorem update_overlay {held : List (L × LockMode)} {l : L} (h : l ∈ held.map Prod.fst)
    (data base : ∀ l, D l) (d : D l) :
    Function.update (overlay held data base) l d =
      overlay held (Function.update data l d) base := by
  funext l'
  by_cases hll : l' = l
  · subst hll
    rw [Function.update_self, overlay_of_mem h, Function.update_self]
  · rw [Function.update_of_ne hll]
    unfold overlay
    rw [Function.update_of_ne hll]

namespace Executor

/-- One call after another: each, with its result, changes the data as it does alone. -/
abbrev Alone (progs : List (Prog L D A)) (data : ∀ l, D l) (e : Nat × A) (data' : ∀ l, D l) :
    Prop := ∃ p, progs[e.1]? = some p ∧ p.exec data = (e.2, data')

/-- Where a call is: from all data that agree with `base` on what it holds, its program alone
does what is left of it does after taking what it holds from the shared data. -/
def Follows (base data : ∀ l, D l) (p : Prog L D A) (t : Task L D A) : Prop :=
  t.prog.TwoPhase t.held ∧ ∀ d, (∀ l ∈ t.held.map Prod.fst, d l = base l) →
    p.exec d = t.prog.exec (overlay t.held data d)

/-- The calls of `history` have had their effect, one after another, which has led to `base`.
The others have touched only what they hold. -/
structure Serial (data₀ : ∀ l, D l) (progs : List (Prog L D A)) (x : Executor L D A)
    (history : List (Nat × A)) (base : ∀ l, D l) : Prop where
  run : Run (Alone progs) data₀ history base
  nodup : (history.map Prod.fst).Nodup
  returned : ∀ i a, (i, a) ∈ history → ∃ t, x.tasks[i]? = some t ∧ t.prog = .ret a
  followed : ∀ i t, x.tasks[i]? = some t → ∃ p, progs[i]? = some p ∧
    (p.TwoPhase [] → i ∉ history.map Prod.fst → Follows base x.data p t) ∧
    (¬p.TwoPhase [] → t.prog.Silent)
  clean : ∀ l, (∀ i (t : Task L D A) p, x.tasks[i]? = some t → progs[i]? = some p → p.TwoPhase [] →
    i ∉ history.map Prod.fst → (l, .write) ∉ t.held) → x.data l = base l
  exclusive : ∀ (i j : Nat) (t u : Task L D A), i ≠ j → x.tasks[i]? = some t →
    x.tasks[j]? = some u → ∀ h ∈ t.held, ∀ h' ∈ u.held, h.1 = h'.1 → h.2.Shares h'.2
  begun : ∀ i (t : Task L D A) p, x.tasks[i]? = some t → progs[i]? = some p → p.TwoPhase [] →
    i ∉ history.map Prod.fst → t.held = [] → t.prog = p

/-- Before any step no call has had an effect. -/
theorem serial_start {progs : List (Prog L D A)} (h : ∀ p ∈ progs, p.TwoPhase [] ∨ p.Silent)
    (data : ∀ l, D l) : Serial data progs (start data progs) [] data where
  run := .nil
  nodup := .nil
  returned _ _ hi := nomatch hi
  followed i t ht := by
    rw [start, List.getElem?_map] at ht
    obtain ⟨p, hp, rfl⟩ := Option.map_eq_some_iff.mp ht
    exact ⟨p, hp, fun h2 _ ↦ ⟨h2, fun _ _ ↦ rfl⟩,
      fun h2 ↦ (h p (List.mem_of_getElem? hp)).resolve_left h2⟩
  clean _ _ := rfl
  exclusive i j t u _ ht _ h hh := by
    obtain ⟨p, -, rfl⟩ := List.mem_map.mp (List.mem_of_getElem? ht)
    cases hh
  begun i t p ht hp _ _ _ := by
    rw [start, List.getElem?_map, hp] at ht
    cases ht
    rfl

section Steps

variable {data₀ base : ∀ l, D l} {progs : List (Prog L D A)} {x x' : Executor L D A}
  {history : List (Nat × A)} {i : Nat} {t t' : Task L D A}

/-- A lock that nobody has for writing guards clean data. -/
theorem Serial.clean_of_reads (h : Serial data₀ progs x history base) {l : L}
    (hl : ∀ u ∈ x.tasks, ∀ h ∈ u.held, h.1 = l → h.2 = .read) : x.data l = base l := by
  refine h.clean l fun j u p hu _ _ _ hmem ↦ ?_
  cases hl u (List.mem_of_getElem? hu) _ hmem rfl

/-- A call that is replaced keeps its effect to itself: it holds nothing together with others,
goes on as before, and changes only data that it holds for writing. -/
theorem Serial.put (h : Serial data₀ progs x history base) (ht : x.tasks[i]? = some t)
    (htasks : x'.tasks = x.tasks.set i t') (hret : ∀ a, t.prog = .ret a → t'.prog = .ret a)
    (hsilent : t.prog.Silent → t'.prog.Silent)
    (hexcl : ∀ j u, j ≠ i → x.tasks[j]? = some u → ∀ h ∈ t'.held, ∀ h' ∈ u.held, h.1 = h'.1 →
      h.2.Shares h'.2)
    (hothers : ∀ j u, j ≠ i → x.tasks[j]? = some u → ∀ l ∈ u.held.map Prod.fst,
      x'.data l = x.data l)
    (hself : ∀ p, progs[i]? = some p → p.TwoPhase [] → i ∉ history.map Prod.fst →
      Follows base x.data p t → Follows base x'.data p t' ∧
        (∀ l, ((l, .write) ∈ t.held ∨ x'.data l ≠ x.data l) → (l, .write) ∈ t'.held) ∧
        (t'.held = [] → t'.prog = p))
    (hfixed : (∀ p, progs[i]? = some p → p.TwoPhase [] → i ∈ history.map Prod.fst) →
      x'.data = x.data) : Serial data₀ progs x' history base where
  run := h.run
  nodup := h.nodup
  returned j a hj := by
    obtain ⟨u, hu, hua⟩ := h.returned j a hj
    rw [htasks, getElem?_put ht]
    by_cases hji : j = i
    · subst hji
      cases ht.symm.trans hu
      exact ⟨t', if_pos rfl, hret a hua⟩
    · exact ⟨u, (if_neg hji).trans hu, hua⟩
  followed j u hu := by
    rw [htasks, getElem?_put ht] at hu
    by_cases hji : j = i
    · subst hji
      rw [if_pos rfl] at hu
      cases hu
      obtain ⟨p, hp, hf, hs⟩ := h.followed j t ht
      exact ⟨p, hp, fun h2 hn ↦ (hself p hp h2 hn (hf h2 hn)).1, fun h2 ↦ hsilent (hs h2)⟩
    · rw [if_neg hji] at hu
      obtain ⟨p, hp, hf, hs⟩ := h.followed j u hu
      refine ⟨p, hp, fun h2 hn ↦ ?_, hs⟩
      obtain ⟨h2u, hexec⟩ := hf h2 hn
      refine ⟨h2u, fun d hd ↦ (hexec d hd).trans ?_⟩
      congr 1
      funext l
      unfold overlay
      split
      · next hl => exact (hothers j u hji hu l hl).symm
      · rfl
  clean l hl := by
    obtain ⟨p, hp, hf, -⟩ := h.followed i t ht
    have hi : x'.tasks[i]? = some t' := by rw [htasks, getElem?_put ht, if_pos rfl]
    -- The call has changed this piece only if it still holds it.
    have hdata : x'.data l = x.data l := by
      by_contra hne
      by_cases h2 : p.TwoPhase [] ∧ i ∉ history.map Prod.fst
      · exact hl i t' p hi hp h2.1 h2.2 ((hself p hp h2.1 h2.2 (hf h2.1 h2.2)).2.1 l (.inr hne))
      · refine hne (congrFun (hfixed fun p' hp' h2' ↦ ?_) l)
        cases hp.symm.trans hp'
        by_contra hn
        exact h2 ⟨h2', hn⟩
    rw [hdata]
    refine h.clean l fun j u q hu hq h2 hn hmem ↦ ?_
    by_cases hji : j = i
    · subst hji
      cases ht.symm.trans hu
      cases hp.symm.trans hq
      exact hl j t' p hi hp h2 hn ((hself p hp h2 hn (hf h2 hn)).2.1 l (.inl hmem))
    · refine hl j u q ?_ hq h2 hn hmem
      rw [htasks, getElem?_put ht, if_neg hji, hu]
  exclusive j k u v hjk hu hv := by
    rw [htasks, getElem?_put ht] at hu hv
    by_cases hji : j = i
    · subst hji
      rw [if_pos rfl] at hu
      rw [if_neg (Ne.symm hjk)] at hv
      cases hu
      exact hexcl k v (Ne.symm hjk) hv
    · rw [if_neg hji] at hu
      by_cases hki : k = i
      · subst hki
        rw [if_pos rfl] at hv
        cases hv
        exact fun h hh h' hh' heq ↦ (hexcl j u hji hu h' hh' h hh heq.symm).symm
      · rw [if_neg hki] at hv
        exact h.exclusive j k u v hjk hu hv
  begun j u q hu hq h2 hn := by
    rw [htasks, getElem?_put ht] at hu
    by_cases hji : j = i
    · subst hji
      rw [if_pos rfl] at hu
      cases hu
      obtain ⟨p, hp, hf, -⟩ := h.followed j t ht
      cases hp.symm.trans hq
      exact (hself q hq h2 hn (hf h2 hn)).2.2
    · rw [if_neg hji] at hu
      exact h.begun j u q hu hq h2 hn

/-- A call that has returned has its effect, while it holds all its locks. -/
theorem Serial.commit (h : Serial data₀ progs x history base) (ht : x.tasks[i]? = some t)
    {p : Prog L D A} (hp : progs[i]? = some p) (h2 : p.TwoPhase [])
    (hn : i ∉ history.map Prod.fst) {a : A} (ha : t.prog = .ret a) :
    Serial data₀ progs x (history ++ [(i, a)]) (overlay t.held x.data base) := by
  have hmem (j : Nat) : j ∈ (history ++ [(i, a)]).map Prod.fst ↔
      j ∈ history.map Prod.fst ∨ j = i := by
    simp
  obtain ⟨p', hp', hf, -⟩ := h.followed i t ht
  cases hp.symm.trans hp'
  refine ⟨h.run.snoc ⟨p, hp, ?_⟩, ?_, fun j b hj ↦ ?_, fun j u hu ↦ ?_, fun l hl ↦ ?_,
    h.exclusive, fun j u q hu hq h2q hnj ↦ ?_⟩
  · rw [(hf h2 hn).2 base fun _ _ ↦ rfl, ha]
    rfl
  · rw [List.map_append]
    exact h.nodup.append (List.nodup_singleton _) (by simpa using hn)
  · obtain hj | hj := List.mem_append.mp hj
    · exact h.returned j b hj
    · cases List.mem_singleton.mp hj
      exact ⟨t, ht, ha⟩
  · obtain ⟨q, hq, hfu, hs⟩ := h.followed j u hu
    refine ⟨q, hq, fun h2q hnj ↦ ?_, hs⟩
    rw [hmem, not_or] at hnj
    obtain ⟨h2u, hexec⟩ := hfu h2q hnj.1
    refine ⟨h2u, fun d hd ↦ hexec d fun l hl ↦ (hd l hl).trans ?_⟩
    by_cases hlt : l ∈ t.held.map Prod.fst
    · -- Both calls hold the lock, and so for reading.
      rw [overlay_of_mem hlt]
      obtain ⟨⟨_, m⟩, hmt, rfl⟩ := List.mem_map.mp hlt
      obtain ⟨⟨_, m'⟩, hmu, hll⟩ := List.mem_map.mp hl
      dsimp only at hll
      subst hll
      refine h.clean_of_reads fun v hv hd hdv hdl ↦ ?_
      obtain ⟨k, hk⟩ := List.getElem?_of_mem hv
      by_cases hki : k = i
      · subst hki
        exact (h.exclusive k j v u (Ne.symm hnj.2) hk hu hd hdv _ hmu hdl).1
      · exact (h.exclusive k i v t hki hk ht hd hdv _ hmt hdl).1
    · exact overlay_of_notMem hlt _ _
  · by_cases hlt : l ∈ t.held.map Prod.fst
    · exact (overlay_of_mem hlt _ _).symm
    · rw [overlay_of_notMem hlt]
      refine h.clean l fun j u q hu hq h2q hnj hmu ↦ ?_
      by_cases hji : j = i
      · subst hji
        cases ht.symm.trans hu
        exact hlt (List.mem_map_of_mem hmu)
      · exact hl j u q hu hq h2q (by rw [hmem]; simp [hnj, hji]) hmu
  · rw [hmem, not_or] at hnj
    exact h.begun j u q hu hq h2q hnj.1

/-- A step that leaves the data and takes no lock. -/
theorem Serial.quiet (h : Serial data₀ progs x history base) (ht : x.tasks[i]? = some t)
    (htasks : x'.tasks = x.tasks.set i t') (hdata : x'.data = x.data)
    (hret : ∀ a, t.prog = .ret a → t'.prog = .ret a)
    (hsilent : t.prog.Silent → t'.prog.Silent) (hheld : t'.held ⊆ t.held)
    (hself : ∀ p, progs[i]? = some p → p.TwoPhase [] → i ∉ history.map Prod.fst →
      Follows base x.data p t →
        Follows base x.data p t' ∧ t'.held = t.held ∧ (t'.held = [] → t'.prog = p)) :
    Serial data₀ progs x' history base := by
  refine h.put ht htasks hret hsilent (fun j u hj hu l hl ↦ ?_) (fun _ _ _ _ l _ ↦ by rw [hdata])
    (fun p hp h2 hn hf ↦ ?_) fun _ ↦ hdata
  · exact h.exclusive i j t u (Ne.symm hj) ht hu l (hheld hl)
  · obtain ⟨hf', heq, hbegun⟩ := hself p hp h2 hn hf
    rw [hdata]
    exact ⟨hf', fun l hl ↦ heq ▸ hl.resolve_right fun hne ↦ hne rfl, hbegun⟩

/-- A call that has had its effect has returned. -/
theorem Serial.ret_of_mem (h : Serial data₀ progs x history base) (ht : x.tasks[i]? = some t)
    (hi : i ∈ history.map Prod.fst) : ∃ a, t.prog = .ret a := by
  obtain ⟨⟨_, a⟩, ha, rfl⟩ := List.mem_map.mp hi
  obtain ⟨u, hu, hua⟩ := h.returned _ a ha
  cases ht.symm.trans hu
  exact ⟨a, hua⟩

/-- Every step keeps the calls serial. A call has its effect when it gives back its first lock. -/
theorem Serial.step (h : Serial data₀ progs x history base) (ha : x.Advances i x') :
    ∃ history' base', Serial data₀ progs x' history' base' ∧ history <+: history' := by
  cases ha with
  | @drop a l held waiting ht =>
    -- The call has its effect now, unless it had it before or is none that has one.
    obtain ⟨p, hp, -, -⟩ := h.followed i _ ht
    by_cases hc : p.TwoPhase [] ∧ i ∉ history.map Prod.fst
    · have h' := h.commit ht hp hc.1 hc.2 rfl
      refine ⟨_, _, h'.quiet ht rfl rfl (fun _ ↦ id) id (List.subset_cons_self _ _)
        fun p _ _ hn ↦ absurd ?_ hn, List.prefix_append _ _⟩
      simp
    · refine ⟨_, _, h.quiet ht rfl rfl (fun _ ↦ id) id (List.subset_cons_self _ _)
        fun q hq h2 hn ↦ absurd ⟨?_, hn⟩ hc, List.prefix_rfl⟩
      cases hp.symm.trans hq
      exact h2
  | ask ht =>
    refine ⟨_, _, h.quiet ht rfl rfl (fun _ ↦ id) id (List.Subset.refl _)
      fun p hp h2 hn hf ↦ ⟨hf, rfl, fun hnil ↦ ?_⟩, List.prefix_rfl⟩
    exact (h.begun i _ p ht hp h2 hn hnil :)
  | @grant l m p held queue ht hl hfree =>
    have hclean : m = .read ∨ m = .write → x.data l = base l := fun _ ↦
      h.clean_of_reads fun u hu b hb hbl ↦ (hfree u hu b hb hbl).2
    refine ⟨_, _, h.put ht rfl (fun a ha ↦ (nomatch ha)) id (fun j u hj hu b hb b' hb' heq ↦ ?_)
      (fun _ _ _ _ _ _ ↦ rfl)
      (fun q hq h2 hn hf ↦ ⟨⟨hf.1, fun d hd ↦ ?_⟩, fun k hk ↦ ?_, fun hnil ↦ nomatch hnil⟩)
      fun _ ↦ rfl, List.prefix_rfl⟩
    · obtain rfl | hb := List.mem_cons.mp hb
      · exact hfree u (List.mem_of_getElem? hu) b' hb' heq.symm
      · exact h.exclusive i j _ u (Ne.symm hj) ht hu b hb b' hb' heq
    · have hdl : x.data l = d l := by
        rw [hd l List.mem_cons_self]
        exact hclean (by cases m <;> simp)
      refine (hf.2 d fun k hk ↦ hd k (List.mem_cons_of_mem _ hk)).trans ?_
      change p.exec (overlay held x.data d) = p.exec (overlay ((l, m) :: held) x.data d)
      rw [overlay_cons m hdl]
    · exact List.mem_cons_of_mem _ (hk.resolve_right fun hne ↦ hne rfl)
  | @unlock l p held waiting ht =>
    refine ⟨_, _, h.quiet ht rfl rfl (fun a ha ↦ (nomatch ha)) id List.eraseP_subset
      fun q hq h2 hn hf ↦ hf.1.elim, List.prefix_rfl⟩
  | @get l p held waiting ht =>
    refine ⟨_, _, h.quiet ht rfl rfl (fun a ha ↦ (nomatch ha)) (fun hs ↦ hs _)
      (List.Subset.refl _) fun q hq h2 hn hf ↦ ⟨⟨hf.1.2 _, fun d hd ↦ (hf.2 d hd).trans ?_⟩, rfl,
        fun hnil ↦ ?_⟩, List.prefix_rfl⟩
    · change (p (overlay held x.data d l)).exec _ = (p (x.data l)).exec _
      rw [overlay_of_mem hf.1.1]
    · have hl := hf.1.1
      rw [show held = [] from hnil] at hl
      cases hl
  | @set l v p held waiting ht =>
    -- Only a call that has not had its effect writes, and only what it holds for writing.
    obtain ⟨q, hq, hf, hs⟩ := h.followed i _ ht
    have h2 : q.TwoPhase [] := by
      by_contra h2
      exact hs h2
    have hn : i ∉ history.map Prod.fst := by
      intro hi
      obtain ⟨a, ha⟩ := h.ret_of_mem ht hi
      cases ha
    have hw : (l, .write) ∈ held := (hf h2 hn).1.1
    refine ⟨_, _, h.put ht rfl (fun a ha ↦ (nomatch ha)) (fun hs ↦ hs.elim)
      (fun j u hj hu ↦ h.exclusive i j ⟨.set l v p, held, waiting⟩ u (Ne.symm hj) ht hu)
      (fun j u hj hu k hk ↦ ?_)
      (fun _ _ _ _ hf ↦ ⟨⟨hf.1.2, fun d hd ↦ (hf.2 d hd).trans ?_⟩, fun k hk ↦ ?_,
        fun hnil ↦ ?_⟩)
      fun hfixed ↦ absurd (hfixed q hq h2) hn, List.prefix_rfl⟩
    · refine Function.update_of_ne ?_ v x.data
      rintro rfl
      obtain ⟨⟨_, m⟩, hmu, rfl⟩ := List.mem_map.mp hk
      cases (h.exclusive i j _ u (Ne.symm hj) ht hu _ hw _ hmu rfl).1
    · change p.exec (Function.update (overlay held x.data d) l v) = _
      rw [update_overlay (List.mem_map_of_mem hw)]
    · obtain hk | hk := hk
      · exact hk
      · by_cases hkl : k = l
        · rwa [hkl]
        · exact absurd (Function.update_of_ne hkl v x.data) hk
    · rw [show held = [] from hnil] at hw
      cases hw

/-- The steps of a schedule determine the state reached. -/
theorem eq_of_run {x₀ y : Executor L D A} {is : List Nat} (hx : Run Step x₀ is x)
    (hy : Run Step x₀ is y) : x = y := by
  refine Run.deterministic (f := fun x i ↦ (x.advance i).getD x) (fun s i s' hs ↦ ?_) hx hy
  rw [show s.advance i = some s' from hs, Option.getD_some]

/-- Every reached state is serial, and its history goes on with the schedule. -/
theorem exists_serial (h : ∀ p ∈ progs, p.TwoPhase [] ∨ p.Silent) {is : List Nat}
    (hr : Run Step (start data₀ progs) is x) :
    ∃ history base, Serial data₀ progs x history base ∧
      ∀ is₁ is₂ y, is = is₁ ++ is₂ → Run Step (start data₀ progs) is₁ y →
        ∃ history₁ base₁, Serial data₀ progs y history₁ base₁ ∧ history₁ <+: history := by
  induction hr with
  | nil =>
    refine ⟨_, _, serial_start h data₀, fun is₁ is₂ y hsplit hy ↦ ?_⟩
    cases (List.nil_eq_append_iff.mp hsplit).1
    cases Run.nil_iff.mp hy
    exact ⟨_, _, serial_start h data₀, List.prefix_rfl⟩
  | @snoc is x x' i hr hs ih =>
    obtain ⟨history, base, hx, hbefore⟩ := ih
    obtain ⟨history', base', hx', hprefix⟩ := hx.step (advances_of_step hs)
    refine ⟨_, _, hx', fun is₁ is₂ y hsplit hy ↦ ?_⟩
    obtain rfl | ⟨is₃, k, rfl⟩ := List.eq_nil_or_concat' is₂
    · rw [List.append_nil] at hsplit
      subst hsplit
      cases eq_of_run (hr.snoc hs) hy
      exact ⟨_, _, hx', List.prefix_rfl⟩
    · rw [← List.append_assoc] at hsplit
      obtain ⟨rfl, -⟩ := List.append_inj' hsplit rfl
      obtain ⟨history₁, base₁, hy', hle⟩ := hbefore is₁ is₃ y rfl hy
      exact ⟨_, _, hy', hle.trans hprefix⟩

/-- When all calls have returned, those that have not had their effect have none. -/
theorem Serial.finish (h : Serial data₀ progs x history base) (hfin : x.Finished) (n : Nat) :
    ∃ history' base', Serial data₀ progs x history' base' ∧ history <+: history' ∧
      ∀ i < n, ∀ p, progs[i]? = some p → i < x.tasks.length → p.TwoPhase [] →
        i ∈ history'.map Prod.fst := by
  induction n with
  | zero => exact ⟨_, _, h, List.prefix_rfl, fun i hi ↦ absurd hi (Nat.not_lt_zero _)⟩
  | succ n ih =>
    obtain ⟨history', base', h', hprefix, hall⟩ := ih
    by_cases hc : ∃ p, progs[n]? = some p ∧ n < x.tasks.length ∧ p.TwoPhase [] ∧
      n ∉ history'.map Prod.fst
    · obtain ⟨p, hp, hlt, h2, hn⟩ := hc
      have ht := List.getElem?_eq_getElem hlt
      obtain ⟨⟨a, ha⟩, -⟩ := hfin _ (List.getElem_mem hlt)
      refine ⟨_, _, h'.commit ht hp h2 hn ha, hprefix.trans (List.prefix_append _ _),
        fun i hi q hq hil h2q ↦ ?_⟩
      rw [List.map_append, List.mem_append]
      obtain hlt' | rfl := Nat.lt_succ_iff_lt_or_eq.mp hi
      · exact .inl (hall i hlt' q hq hil h2q)
      · exact .inr List.mem_cons_self
    · refine ⟨_, _, h', hprefix, fun i hi p hp hil h2 ↦ ?_⟩
      obtain hlt' | rfl := Nat.lt_succ_iff_lt_or_eq.mp hi
      · exact hall i hlt' p hp hil h2
      · by_contra hn
        exact hc ⟨p, hp, hil, h2, hn⟩

end Steps

end Executor
end SilverPow.Base
