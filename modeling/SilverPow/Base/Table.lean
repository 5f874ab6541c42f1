import Mathlib.Algebra.BigOperators.Group.Multiset.Basic
import Mathlib.Algebra.Order.BigOperators.Group.Multiset
import Mathlib.Algebra.Order.Group.Nat
import Mathlib.Data.Finmap
import SilverPow.Base.Word

/-!
# Hash tables and sums over their values

A hash table is Mathlib's `Finmap`: it has no iteration order, so nothing stated here
can depend on one. `total` sums a quantity over the stored values; inserting at a key
replaces that key's contribution and no other. Sums of words over a table wrap, and
agree with the true sum modulo the word size.
-/

namespace SilverPow.Base

/-- A hash table from keys to values, without an iteration order. -/
abbrev Table (K V : Type) := Finmap fun _ : K ↦ V

namespace Table

section Sums

variable {K V M : Type} [AddCommMonoid M]

/-- Sum of a quantity over all stored values. -/
def total (f : V → M) (m : Table K V) : M := (m.entries.map fun e ↦ f e.2).sum

/-- Sums of two quantities add up. -/
theorem total_add (f g : V → M) (m : Table K V) :
    total (fun v ↦ f v + g v) m = total f m + total g m :=
  Multiset.sum_map_add

/-- A wrapping sum over a table is the true sum modulo the word size. -/
theorem toNat_total {w : Nat} (f : V → BitVec w) (m : Table K V) :
    (total f m).toNat = total (fun v ↦ (f v).toNat) m % 2 ^ w := by
  unfold total
  induction m.entries using Multiset.induction with
  | empty => simp
  | cons e es ih =>
    rw [Multiset.map_cons, Multiset.sum_cons, Multiset.map_cons, Multiset.sum_cons,
      BitVec.toNat_add, ih, Nat.add_mod_mod]

/-- A table counts its entries. -/
theorem card_entries (m : Table K V) : m.entries.card = total (fun _ ↦ 1) m := by
  simp [total]

end Sums

section Iteration

variable {K V : Type}

/-- A list of the entries of a table, in some order of iteration. -/
def Iterates (m : Table K V) (order : List (K × V)) : Prop :=
  (order : Multiset (K × V)) = m.entries.map fun e ↦ (e.1, e.2)

instance [DecidableEq K] [DecidableEq V] (m : Table K V) (order : List (K × V)) :
    Decidable (m.Iterates order) := inferInstanceAs (Decidable (_ = _))

/-- Two tables with the same entries are equal. -/
theorem eq_of_iterates {m m' : Table K V} {order : List (K × V)} (h : m.Iterates order)
    (h' : m'.Iterates order) : m = m' := by
  have hinj : Function.Injective fun e : (Σ _ : K, V) ↦ (e.1, e.2) := by
    rintro ⟨a, v⟩ ⟨b, w⟩ hab
    cases hab
    rfl
  exact Finmap.ext (Multiset.map_injective hinj (h.symm.trans h'))

/-- An iteration visits the keys once each. -/
theorem nodup_of_iterates {m : Table K V} {order : List (K × V)} (h : m.Iterates order) :
    (order.map Prod.fst).Nodup := by
  have hkeys : ((order.map Prod.fst : List K) : Multiset K) = m.entries.keys := by
    rw [← Multiset.map_coe, h, Multiset.map_map]
    rfl
  rw [← Multiset.coe_nodup, hkeys]
  exact Multiset.nodup_keys.mpr m.nodupKeys

/-- An iteration visits as many entries as there are keys. -/
theorem length_of_iterates {m : Table K V} {order : List (K × V)} (h : m.Iterates order) :
    order.length = m.keys.card := by
  rw [← Multiset.coe_card, h, Multiset.card_map]
  exact (Multiset.card_map _ _).symm

/-- An iteration visits the entries that can be looked up. -/
theorem mem_iterates_iff [DecidableEq K] {m : Table K V} {order : List (K × V)}
    (h : m.Iterates order) {k : K} {v : V} : (k, v) ∈ order ↔ m.lookup k = some v := by
  have hl : m.lookup k = some v ↔ Sigma.mk k v ∈ m.entries := Finmap.lookup_eq_some_iff
  rw [← Multiset.mem_coe, h, Multiset.mem_map, hl]
  constructor
  · rintro ⟨⟨k', v'⟩, hmem, he⟩
    cases he
    exact hmem
  · intro hmem
    exact ⟨⟨k, v⟩, hmem, rfl⟩

end Iteration

variable {K V M : Type} [DecidableEq K] [AddCommMonoid M]

/-- The stored value, or a fresh one that is stored first; `entry(k).or_insert_with`. -/
def entryOrInsert (m : Table K V) (k : K) (fresh : V) : V × Table K V :=
  match m.lookup k with
  | some v => (v, m)
  | none => (fresh, m.insert k fresh)

/-- Change the stored value, if there is one; `get_mut(k)`. -/
def modify (m : Table K V) (k : K) (f : V → V) : Table K V :=
  match m.lookup k with
  | some v => m.insert k (f v)
  | none => m

/-- Insert entries, first things first. -/
def putAll (m : Table K V) (writes : List (K × V)) : Table K V :=
  writes.foldl (fun m w ↦ m.insert w.1 w.2) m

/-- The quantity stored at a key, zero when the key is absent. -/
def valueAt (f : V → M) (m : Table K V) (k : K) : M := (m.lookup k).elim 0 f

/-- Quantities that agree on every stored value have the same sum. -/
theorem total_congr {f g : V → M} {m : Table K V}
    (h : ∀ k v, m.lookup k = some v → f v = g v) : total f m = total g m := by
  unfold total
  congr 1
  apply Multiset.map_congr rfl
  intro e he
  exact h e.1 e.2 (Finmap.lookup_eq_some_iff.mpr he)

/-- A quantity that is zero on every stored value has the sum zero. -/
theorem total_eq_zero {f : V → M} {m : Table K V} (h : ∀ k, valueAt f m k = 0) :
    total f m = 0 := by
  rw [total_congr (g := fun _ ↦ 0) fun k v hl ↦ ?_]
  · exact Multiset.sum_map_zero
  · have hk := h k
    rwa [valueAt, hl, Option.elim_some] at hk

/-- A fresh key adds its own contribution. -/
theorem total_insert_of_notMem (f : V → M) {m : Table K V} {k : K} (v : V) (h : k ∉ m) :
    total f (m.insert k v) = f v + total f m := by
  rw [total, Finmap.entries_insert_of_notMem h, Multiset.map_cons, Multiset.sum_cons, total]

private theorem insert_eq_insert_erase (m : Table K V) (k : K) (v : V) :
    m.insert k v = (m.erase k).insert k v := by
  apply Finmap.ext_lookup
  intro a
  by_cases ha : a = k
  · subst ha
    rw [Finmap.lookup_insert, Finmap.lookup_insert]
  · rw [Finmap.lookup_insert_of_ne _ ha, Finmap.lookup_insert_of_ne _ ha,
      Finmap.lookup_erase_ne ha]

/-- Storing again what a key already holds changes nothing. -/
theorem insert_of_lookup {m : Table K V} {k : K} {v : V} (h : m.lookup k = some v) :
    m.insert k v = m := by
  apply Finmap.ext_lookup
  intro a
  by_cases ha : a = k
  · subst ha
    rw [Finmap.lookup_insert, h]
  · rw [Finmap.lookup_insert_of_ne _ ha]

private theorem erase_of_lookup_none {m : Table K V} {k : K} (h : m.lookup k = none) :
    m.erase k = m := by
  apply Finmap.ext_lookup
  intro a
  by_cases ha : a = k
  · subst ha
    rw [Finmap.lookup_erase, h]
  · rw [Finmap.lookup_erase_ne ha]

/-- What the new value meets at its key, and the old ones at all others, holds of every
stored value after an insertion. -/
theorem forall_lookup_insert {P : K → V → Prop} {m : Table K V} {k : K} {v : V} (hk : P k v)
    (h : ∀ a w, a ≠ k → m.lookup a = some w → P a w) :
    ∀ a w, (m.insert k v).lookup a = some w → P a w := by
  intro a w hl
  by_cases ha : a = k
  · subst ha
    cases (Finmap.lookup_insert m).symm.trans hl
    exact hk
  · exact h a w ha ((Finmap.lookup_insert_of_ne m ha).symm.trans hl)

/-- The keys that are absent after an insertion are other keys that were absent before. -/
theorem forall_lookup_insert_none {P : K → Prop} {m : Table K V} {k : K} {v : V}
    (h : ∀ a, a ≠ k → m.lookup a = none → P a) :
    ∀ a, (m.insert k v).lookup a = none → P a := by
  intro a hl
  by_cases ha : a = k
  · subst ha
    cases (Finmap.lookup_insert m).symm.trans hl
  · exact h a ha ((Finmap.lookup_insert_of_ne m ha).symm.trans hl)

/-- Inserting replaces exactly the contribution that the key had before. -/
theorem total_insert (f : V → M) (m : Table K V) (k : K) (v : V) :
    total f (m.insert k v) + valueAt f m k = total f m + f v := by
  have hk : k ∉ m.erase k := Finmap.notMem_erase_self
  rw [insert_eq_insert_erase, total_insert_of_notMem f v hk]
  cases h : m.lookup k with
  | none => rw [erase_of_lookup_none h, valueAt, h, Option.elim_none, add_zero, add_comm]
  | some old =>
    have ho := total_insert_of_notMem f old hk
    rw [← insert_eq_insert_erase, insert_of_lookup h] at ho
    rw [ho, valueAt, h, Option.elim_some, add_comm (f v), add_comm (f old), add_right_comm]

/-- After an insertion the key holds the new value and every other key is unchanged. -/
theorem valueAt_insert (f : V → M) (m : Table K V) (k : K) (v : V) (a : K) :
    valueAt f (m.insert k v) a = if a = k then f v else valueAt f m a := by
  unfold valueAt
  split
  · next h => subst h; rw [Finmap.lookup_insert, Option.elim_some]
  · next h => rw [Finmap.lookup_insert_of_ne _ h]

/-- One key's quantity is part of the sum. -/
theorem valueAt_le_total (f : V → Nat) (m : Table K V) (k : K) :
    valueAt f m k ≤ total f m := by
  cases h : m.lookup k with
  | none => rw [valueAt, h]; exact Nat.zero_le _
  | some v =>
    rw [valueAt, h, Option.elim_some]
    exact Multiset.single_le_sum (fun _ _ ↦ Nat.zero_le _) _
      (Multiset.mem_map.mpr ⟨⟨k, v⟩, Finmap.lookup_eq_some_iff.mp h, rfl⟩)

/-- Removing a key takes its own contribution away. -/
theorem total_erase (f : V → M) (m : Table K V) (k : K) :
    total f (m.erase k) + valueAt f m k = total f m := by
  cases h : m.lookup k with
  | none => rw [erase_of_lookup_none h, valueAt, h, Option.elim_none, add_zero]
  | some v =>
    have ht := total_insert_of_notMem f v (Finmap.notMem_erase_self (s := m) (a := k))
    rw [← insert_eq_insert_erase, insert_of_lookup h] at ht
    rw [ht, valueAt, h, Option.elim_some, add_comm]

/-- A fresh key makes a table one entry larger. -/
theorem card_entries_insert {m : Table K V} {k : K} (v : V) (h : m.lookup k = none) :
    (m.insert k v).entries.card = m.entries.card + 1 := by
  have ht := total_insert (fun _ : V ↦ 1) m k v
  rwa [valueAt, h, Option.elim_none, add_zero, ← card_entries, ← card_entries] at ht

/-- Removing a key does not make a table larger. -/
theorem card_entries_erase_le (m : Table K V) (k : K) :
    (m.erase k).entries.card ≤ m.entries.card := by
  rw [card_entries, card_entries, ← total_erase (fun _ : V ↦ 1) m k]
  exact Nat.le_add_right _ _

/-- The keys after an insertion. -/
theorem keys_insert (m : Table K V) (k : K) (v : V) : (m.insert k v).keys = insert k m.keys := by
  ext a
  rw [Finmap.mem_keys, Finmap.mem_insert, Finset.mem_insert, Finmap.mem_keys]

/-- The stored values after a change at one key. -/
theorem lookup_modify (m : Table K V) (k : K) (f : V → V) (a : K) :
    (m.modify k f).lookup a = if a = k then (m.lookup k).map f else m.lookup a := by
  unfold modify
  split
  · next v h =>
    split
    · next ha => rw [ha, Finmap.lookup_insert, h, Option.map_some]
    · next ha => exact Finmap.lookup_insert_of_ne m ha
  · next h =>
    split
    · next ha => rw [ha, h, Option.map_none]
    · rfl

/-- A change at one key replaces that key's contribution. -/
theorem total_modify (f : V → M) {m : Table K V} {k : K} {v : V} (g : V → V)
    (h : m.lookup k = some v) : total f (m.modify k g) + f v = total f m + f (g v) := by
  have ht := total_insert f m k (g v)
  rw [valueAt, h, Option.elim_some] at ht
  unfold modify
  rwa [h]

/-- A change that keeps a quantity keeps its sum. -/
theorem total_modify_of_eq (f : V → Nat) (m : Table K V) (k : K) {g : V → V}
    (h : ∀ v, f (g v) = f v) : total f (m.modify k g) = total f m := by
  cases hl : m.lookup k with
  | none => rw [modify, hl]
  | some v =>
    have ht := total_modify f g hl
    rw [h] at ht
    exact Nat.add_right_cancel ht

/-- A change at one key stores no other keys. -/
theorem keys_modify (m : Table K V) (k : K) (f : V → V) : (m.modify k f).keys = m.keys := by
  ext a
  rw [Finmap.mem_keys, Finmap.mem_keys, ← Finmap.lookup_isSome, ← Finmap.lookup_isSome,
    lookup_modify]
  split
  · next ha => rw [ha, Option.isSome_map]
  · rfl

/-- What the old values meet at the other keys, and the changed one at its own, holds of
every stored value after a change at one key. -/
theorem forall_lookup_modify {P : K → V → Prop} {m : Table K V} {k : K} {f : V → V}
    (hk : ∀ v, m.lookup k = some v → P k (f v))
    (h : ∀ a w, a ≠ k → m.lookup a = some w → P a w) :
    ∀ a w, (m.modify k f).lookup a = some w → P a w := by
  intro a w hl
  rw [lookup_modify] at hl
  split at hl
  · next ha =>
    subst ha
    obtain ⟨v, hv, rfl⟩ := Option.map_eq_some_iff.mp hl
    exact hk v hv
  · next ha => exact h a w ha hl

/-- What is stored after removing a key was stored at another key before. -/
theorem forall_lookup_erase {P : K → V → Prop} {m : Table K V} {k : K}
    (h : ∀ a w, a ≠ k → m.lookup a = some w → P a w) :
    ∀ a w, (m.erase k).lookup a = some w → P a w := by
  intro a w hl
  by_cases ha : a = k
  · subst ha
    rw [Finmap.lookup_erase] at hl
    cases hl
  · rw [Finmap.lookup_erase_ne ha] at hl
    exact h a w ha hl

/-- A list that has each stored value of some kind exactly once has the sum of their
quantities, where the values tell their keys. -/
theorem total_ite_eq_sum (f : V → M) {p : V → Prop} [DecidablePred p] {m : Table K V}
    {key : V → K} (hkey : ∀ k v, m.lookup k = some v → key v = k) {vs : List V}
    (hnd : vs.Nodup) (hmem : ∀ v, v ∈ vs ↔ m.lookup (key v) = some v ∧ p v) :
    total (fun v ↦ if p v then f v else 0) m = (vs.map f).sum := by
  have hlookup : ∀ {e}, e ∈ m.entries → m.lookup e.1 = some e.2 := fun he ↦
    Finmap.lookup_eq_some_iff.mpr he
  have hvalues : (m.entries.map (·.2)).Nodup := by
    refine m.nodup_entries.map_on fun a ha b hb hab ↦ ?_
    have hk := hkey _ _ (hlookup ha)
    rw [hab, hkey _ _ (hlookup hb)] at hk
    exact Sigma.ext hk.symm (heq_of_eq hab)
  have hvs : (vs : Multiset V) = (m.entries.map (·.2)).filter p := by
    refine (Multiset.Nodup.ext (Multiset.coe_nodup.mpr hnd) (hvalues.filter p)).mpr fun v ↦ ?_
    rw [Multiset.mem_coe, hmem, Multiset.mem_filter, Multiset.mem_map]
    constructor
    · rintro ⟨hl, hp⟩
      exact ⟨⟨_, Finmap.lookup_eq_some_iff.mp hl, rfl⟩, hp⟩
    · rintro ⟨⟨e, he, rfl⟩, hp⟩
      rw [hkey _ _ (hlookup he)]
      exact ⟨hlookup he, hp⟩
  rw [← Multiset.sum_coe, ← Multiset.map_coe, hvs, total]
  induction m.entries using Multiset.induction with
  | empty => simp
  | cons e es ih =>
    simp only [Multiset.map_cons, Multiset.sum_cons, ih]
    by_cases hp : p e.2
    · rw [Multiset.filter_cons_of_pos _ hp, Multiset.map_cons, Multiset.sum_cons, if_pos hp]
    · rw [Multiset.filter_cons_of_neg _ hp, if_neg hp, zero_add]

/-- `entryOrInsert` returns what the key holds afterwards. -/
theorem lookup_entryOrInsert (m : Table K V) (k : K) (fresh : V) :
    (entryOrInsert m k fresh).2.lookup k = some (entryOrInsert m k fresh).1 := by
  unfold entryOrInsert
  cases h : m.lookup k with
  | some v => exact h
  | none => exact Finmap.lookup_insert m

/-- `entryOrInsert` touches no other key. -/
theorem lookup_entryOrInsert_of_ne {m : Table K V} {k a : K} (fresh : V) (h : a ≠ k) :
    (entryOrInsert m k fresh).2.lookup a = m.lookup a := by
  unfold entryOrInsert
  cases m.lookup k with
  | some v => rfl
  | none => exact Finmap.lookup_insert_of_ne m h

/-- The value that `entryOrInsert` returns is the stored one, or the fresh one. -/
theorem entryOrInsert_fst (m : Table K V) (k : K) (fresh : V) :
    (entryOrInsert m k fresh).1 = (m.lookup k).getD fresh := by
  unfold entryOrInsert
  cases m.lookup k <;> rfl

/-- A fresh value of quantity zero leaves every key's quantity as it was. -/
theorem valueAt_entryOrInsert (f : V → M) (m : Table K V) (k : K) {fresh : V}
    (h : f fresh = 0) (a : K) :
    valueAt f (entryOrInsert m k fresh).2 a = valueAt f m a := by
  unfold entryOrInsert
  cases hk : m.lookup k with
  | some v => rfl
  | none =>
    rw [valueAt_insert]
    split
    · next ha => subst ha; rw [valueAt, hk, Option.elim_none, h]
    · rfl

/-- A fresh value of quantity zero leaves the sum as it was. -/
theorem total_entryOrInsert (f : V → M) (m : Table K V) (k : K) {fresh : V}
    (h : f fresh = 0) : total f (entryOrInsert m k fresh).2 = total f m := by
  unfold entryOrInsert
  cases hk : m.lookup k with
  | some v => rfl
  | none =>
    have ht := total_insert f m k fresh
    rwa [valueAt, hk, Option.elim_none, add_zero, h, add_zero] at ht

/-- A record appended to a history is the last one of its key and of no other. -/
theorem filter_key_concat {R : Type} [BEq K] [LawfulBEq K] (key : R → K) (history : List R)
    (r : R) (k : K) :
    (history ++ [r]).filter (key · == k) =
      if k = key r then history.filter (key · == k) ++ [r] else history.filter (key · == k) := by
  rw [List.filter_append]
  split
  · next h => simp [h]
  · next h => simp [Ne.symm h]

/-- Where each key appears once, the entries with a key are the one that is there. -/
theorem filter_key_eq_singleton {entries : List (K × V)} {k : K} {v : V}
    (hn : (entries.map Prod.fst).Nodup) (hm : (k, v) ∈ entries) :
    entries.filter (·.1 = k) = [(k, v)] := by
  induction entries with
  | nil => cases hm
  | cons e entries ih =>
    rw [List.map_cons, List.nodup_cons] at hn
    obtain rfl | hm := List.mem_cons.mp hm
    · have hnone : entries.filter (·.1 = k) = [] := by
        apply List.filter_eq_nil_iff.mpr
        intro a ha hk
        exact hn.1 (List.mem_map.mpr ⟨a, ha, of_decide_eq_true hk⟩)
      rw [List.filter_cons_of_pos (by simp), hnone]
    · have hne : e.1 ≠ k := by
        intro he
        exact hn.1 (List.mem_map.mpr ⟨(k, v), hm, he.symm⟩)
      rw [List.filter_cons_of_neg (by simpa using hne), ih hn.2 hm]

@[simp] theorem putAll_nil (m : Table K V) : m.putAll [] = m := rfl

@[simp] theorem putAll_cons (m : Table K V) (w : K × V) (writes : List (K × V)) :
    m.putAll (w :: writes) = putAll (m.insert w.1 w.2) writes := rfl

/-- A key that no entry has keeps its value. -/
theorem lookup_putAll_of_notMem (m : Table K V) {writes : List (K × V)} {k : K}
    (h : k ∉ writes.map Prod.fst) : (m.putAll writes).lookup k = m.lookup k := by
  induction writes generalizing m with
  | nil => rfl
  | cons w writes ih =>
    rw [List.map_cons, List.mem_cons, not_or] at h
    rw [putAll_cons, ih _ h.2, Finmap.lookup_insert_of_ne _ h.1]

/-- Where the keys are different, a key holds its new value as soon as its entry is among the
inserted ones, and its old value before. -/
theorem lookup_putAll_take (m : Table K V) {writes : List (K × V)}
    (hn : (writes.map Prod.fst).Nodup) (n : Nat) {i : Nat} {k : K} {v : V}
    (h : writes[i]? = some (k, v)) :
    (m.putAll (writes.take n)).lookup k = if i < n then some v else m.lookup k := by
  induction writes generalizing m n i with
  | nil => cases h
  | cons w writes ih =>
    rw [List.map_cons, List.nodup_cons] at hn
    cases n with
    | zero => rfl
    | succ n =>
      rw [List.take_succ_cons, putAll_cons]
      cases i with
      | zero =>
        cases h
        have hk : k ∉ (writes.take n).map Prod.fst := fun hk ↦
          hn.1 (List.map_subset _ (List.take_subset n writes) hk)
        rw [lookup_putAll_of_notMem _ hk, Finmap.lookup_insert, if_pos (Nat.zero_lt_succ n)]
      | succ i =>
        have hk : k ≠ w.1 := by
          rintro rfl
          exact hn.1 (List.mem_map.mpr ⟨_, List.mem_of_getElem? h, rfl⟩)
        rw [ih _ hn.2 n h, Finmap.lookup_insert_of_ne _ hk]
        simp only [Nat.succ_lt_succ_iff]

/-- One value for many keys. -/
theorem lookup_putAll_const (m : Table K V) (ks : List K) (v : V) (a : K) :
    (m.putAll (ks.map (·, v))).lookup a = if a ∈ ks then some v else m.lookup a := by
  induction ks generalizing m with
  | nil => simp
  | cons k ks ih =>
    rw [List.map_cons, putAll_cons, ih]
    by_cases ha : a = k
    · subst ha
      simp
    · simp [ha]

end Table
end SilverPow.Base
