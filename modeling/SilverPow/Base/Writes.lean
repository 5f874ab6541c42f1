import SilverPow.Base.Table

/-!
# Writers that may stop

A table on a disk is written one key at a time. Each put is atomic and durable, and a writer
stops at a put that is refused or when it crashes: the disk then holds what the puts before
have written. A record whose fields are written one after another is found as a whole exactly
if the fields before the stop, or those after it, were no different before.
-/

namespace SilverPow.Base

/-- How a put ends: it takes effect, it is refused, or the writer crashes. -/
inductive PutOutcome where
  | done
  | failed (error : String)
  | crashed
  deriving DecidableEq

/-- Why a writer has stopped. -/
inductive Stop where
  | crashed
  | error (text : String)
  deriving DecidableEq

/-- A table on a disk, with the outcomes of the next puts; without one a put crashes. -/
structure Disk (K V : Type) where
  store : Table K V
  outcomes : List PutOutcome

/-- A writer of a disk, which yields a value unless it stops. -/
abbrev DiskWriter (K V A : Type) : Type := ExceptT Stop (StateM (Disk K V)) A

namespace DiskWriter

variable {K V A : Type} [DecidableEq K]

/-- Write one key. -/
def put (k : K) (v : V) : DiskWriter K V Unit := fun disk ↦
  match disk.outcomes with
  | .done :: outcomes => (.ok (), ⟨disk.store.insert k v, outcomes⟩)
  | .failed e :: outcomes => (.error (.error e), ⟨disk.store, outcomes⟩)
  | .crashed :: outcomes => (.error .crashed, ⟨disk.store, outcomes⟩)
  | [] => (.error .crashed, disk)

/-- The number of puts that take effect before the first that does not. -/
def doneCount (outcomes : List PutOutcome) : Nat := (outcomes.takeWhile (· = .done)).length

@[simp] theorem doneCount_done (outcomes : List PutOutcome) :
    doneCount (.done :: outcomes) = doneCount outcomes + 1 := rfl

/-- A writer that puts `writes`, in this order, until it stops. -/
def Puts (m : DiskWriter K V A) (writes : List (K × V)) : Prop :=
  ∀ disk, (m disk).2.store = disk.store.putAll (writes.take (doneCount disk.outcomes))

/-- A writer that stops by itself. -/
theorem puts_throw (stop : Stop) : Puts (throw stop : DiskWriter K V A) [] := by
  intro disk
  rw [List.take_nil]
  rfl

/-- One put. -/
theorem puts_put (k : K) (v : V) : Puts (put k v) [(k, v)] := by
  rintro ⟨store, outcomes⟩
  rcases outcomes with _ | ⟨_ | _ | _, outcomes⟩
  · rfl
  · rw [doneCount_done, List.take_succ_cons, List.take_nil]
    rfl
  · rfl
  · rfl

/-- One put, and then others. -/
theorem puts_bind (k : K) (v : V) {next : DiskWriter K V A} {writes : List (K × V)}
    (h : Puts next writes) : Puts (put k v >>= fun _ ↦ next) ((k, v) :: writes) := by
  rintro ⟨store, outcomes⟩
  rcases outcomes with _ | ⟨_ | _ | _, outcomes⟩
  · rfl
  · exact h ⟨store.insert k v, outcomes⟩
  · rfl
  · rfl

/-- A writer that finishes after a put has done the put. -/
theorem ok_of_bind {k : K} {v : V} {next : DiskWriter K V A} {disk : Disk K V} {a : A}
    (h : ((put k v >>= fun _ ↦ next) disk).1 = .ok a) :
    ∃ disk', (next disk').1 = .ok a ∧ doneCount disk.outcomes = doneCount disk'.outcomes + 1 := by
  obtain ⟨store, outcomes⟩ := disk
  rcases outcomes with _ | ⟨_ | _ | _, outcomes⟩
  · cases h
  · exact ⟨⟨store.insert k v, outcomes⟩, h, rfl⟩
  · cases h
  · cases h

/-- A put that finishes is done. -/
theorem ok_of_put {k : K} {v : V} {disk : Disk K V} (h : (put k v disk).1 = .ok ()) :
    1 ≤ doneCount disk.outcomes := by
  obtain ⟨store, outcomes⟩ := disk
  rcases outcomes with _ | ⟨_ | _ | _, outcomes⟩
  · cases h
  · exact Nat.le_add_left 1 _
  · cases h
  · cases h

end DiskWriter

/-! ### Fields that are written one after another -/

section Fields

variable {A : Type}

/-- The fields after `n` of them have been written. -/
def mixed (old new : List A) (n : Nat) : List A := new.take n ++ old.drop n

variable {old new : List A} {n : Nat}

/-- The old record is found exactly if the written fields are as they were. -/
theorem mixed_eq_old_iff : mixed old new n = old ↔ new.take n = old.take n := by
  constructor
  · intro h
    rw [mixed] at h
    conv_rhs at h => rw [← List.take_append_drop n old]
    exact List.append_cancel_right h
  · intro h
    rw [mixed, h, List.take_append_drop]

/-- The new record is found exactly if the other fields are not to change. -/
theorem mixed_eq_new_iff : mixed old new n = new ↔ old.drop n = new.drop n := by
  constructor
  · intro h
    rw [mixed] at h
    conv_rhs at h => rw [← List.take_append_drop n new]
    exact List.append_cancel_left h
  · intro h
    rw [mixed, h, List.take_append_drop]

/-- After all fields have been written the new record is found. -/
theorem mixed_of_length_le (ho : old.length ≤ n) (hn : new.length ≤ n) :
    mixed old new n = new := by
  rw [mixed, List.take_of_length_le hn, List.drop_eq_nil_of_le ho, List.append_nil]

/-- At every stop one of the two records is found, exactly if at most one field changes. -/
theorem mixed_atomic_iff :
    (∀ n, mixed old new n = old ∨ mixed old new n = new) ↔
      ∀ i j : Nat, i < j → old[i]? = new[i]? ∨ old[j]? = new[j]? := by
  simp only [mixed_eq_old_iff, mixed_eq_new_iff]
  constructor
  · intro h i j hij
    obtain h | h := h j
    · left
      have := congrArg (·[i]?) h
      simpa [List.getElem?_take, hij] using this.symm
    · right
      have := congrArg (·[0]?) h
      simpa using this
  · intro h n
    by_contra hne
    rw [not_or] at hne
    obtain ⟨i, hi⟩ : ∃ i, (new.take n)[i]? ≠ (old.take n)[i]? := by
      by_contra hall
      exact hne.1 (List.ext_getElem? fun i ↦ not_not.mp fun hi ↦ hall ⟨i, hi⟩)
    obtain ⟨j, hj⟩ : ∃ j, (old.drop n)[j]? ≠ (new.drop n)[j]? := by
      by_contra hall
      exact hne.2 (List.ext_getElem? fun j ↦ not_not.mp fun hj ↦ hall ⟨j, hj⟩)
    rw [List.getElem?_take, List.getElem?_take] at hi
    rw [List.getElem?_drop, List.getElem?_drop] at hj
    split at hi
    · next hin =>
      obtain heq | heq := h i (n + j) (by omega)
      · exact hi heq.symm
      · exact hj heq
    · exact hi rfl

end Fields
end SilverPow.Base
