import Mathlib.Data.List.Basic

/-!
# The first of a ranking

A list is sorted and cut off. Whatever the order of the list and however ties fall, the first
elements stand in order, and none that is cut off would have to stand before one that is not.
-/

namespace SilverPow.Base

variable {α β : Type*} {le : α → α → Bool}

/-- The first elements, at most so many, in the order of a comparison; ties keep their places. -/
def firstBy (le : α → α → Bool) (limit : Nat) (xs : List α) : List α :=
  (xs.mergeSort le).take limit

theorem length_firstBy (limit : Nat) (xs : List α) :
    (firstBy le limit xs).length = min limit xs.length := by
  rw [firstBy, List.length_take, List.length_mergeSort]

theorem mem_of_mem_firstBy {limit : Nat} {xs : List α} {x : α} (h : x ∈ firstBy le limit xs) :
    x ∈ xs :=
  List.mem_mergeSort.mp (List.mem_of_mem_take h)

/-- What is different in the whole list is different in the first of it. -/
theorem nodup_map_firstBy {limit : Nat} {xs : List α} {f : α → β} (h : (xs.map f).Nodup) :
    ((firstBy le limit xs).map f).Nodup := by
  have hsorted : ((xs.mergeSort le).map f).Nodup :=
    ((List.mergeSort_perm xs le).map f).nodup_iff.mpr h
  exact hsorted.sublist ((List.take_sublist _ _).map f)

section Order

variable (htrans : ∀ a b c, le a b = true → le b c = true → le a c = true)
  (htotal : ∀ a b, (le a b || le b a) = true)
include htrans htotal

/-- The first elements stand in order. -/
theorem pairwise_firstBy (limit : Nat) (xs : List α) :
    (firstBy le limit xs).Pairwise fun a b ↦ le a b = true :=
  (List.pairwise_mergeSort htrans htotal xs).sublist (List.take_sublist _ _)

/-- What is left out stands behind everything that is not. -/
theorem le_of_notMem_firstBy {limit : Nat} {xs : List α} {x y : α} (hx : x ∈ xs)
    (hn : x ∉ firstBy le limit xs) (hy : y ∈ firstBy le limit xs) : le y x = true := by
  have hsorted := List.pairwise_mergeSort htrans htotal xs
  rw [← List.take_append_drop limit (xs.mergeSort le), List.pairwise_append] at hsorted
  have hmem : x ∈ xs.mergeSort le := List.mem_mergeSort.mpr hx
  rw [← List.take_append_drop limit (xs.mergeSort le)] at hmem
  rcases List.mem_append.mp hmem with hfirst | hrest
  · exact absurd hfirst hn
  · exact hsorted.2.2 y hy x hrest

end Order

end SilverPow.Base
