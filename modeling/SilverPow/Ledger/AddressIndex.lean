import SilverPow.Ledger.Utxo

/-!
# The index from addresses to unspent entries

The index is kept by hand next to the entries: `add_utxo` pushes a key whether or not it is
listed already, and replaces what was stored under it. The index is exact as long as an
unspent entry is only added under an outpoint that is not stored yet, and no balance
exceeds a 128-bit word; entries added as spent are never listed.
-/

namespace SilverPow.Ledger.UTXOSet

open SilverPow.Base

/-- The entry is stored, unspent, and belongs to the address. -/
def Holds (set : UTXOSet) (address : String) (utxo : UTXOEntry) : Prop :=
  set.getUtxo utxo.txHash utxo.outputIndex = some utxo ∧
    utxo.spent = false ∧ utxo.recipient = address

/-- What an entry adds to the true balance of an address. -/
def owned (address : String) (utxo : UTXOEntry) : Nat :=
  if utxo.spent = false ∧ utxo.recipient = address then utxo.amount.toNat else 0

/-- True sum of the amounts over the distinct unspent outpoints of an address. -/
def unspentTotal (set : UTXOSet) (address : String) : Nat :=
  Table.total (owned address) set.utxos

/-- For every address each unspent entry is listed exactly once and nothing else is, and the
balance is the true sum of their amounts. -/
def IndexExact (set : UTXOSet) : Prop :=
  ∀ a, (set.getAddressUtxos a).Nodup ∧ (∀ utxo, utxo ∈ set.getAddressUtxos a ↔ set.Holds a utxo) ∧
    (set.getAddressBalance a).toNat = set.unspentTotal a

/-- The call does not add an unspent entry, or the outpoint is not stored yet and the
recipient's unspent amounts stay within 128 bits. -/
def AddsFresh (hexDecode : String → Option (List U8)) (set : UTXOSet) (e : Event) : Prop :=
  ∀ utxo, e.call = .addUtxo utxo → Storable hexDecode utxo → utxo.spent = false →
    set.getUtxo utxo.txHash utxo.outputIndex = none ∧
      set.unspentTotal utxo.recipient + utxo.amount.toNat < 2 ^ 128

/-- What every call keeps: entries are stored under their own keys, a stored key is listed
for the recipient of its entry, and only stored keys are listed. -/
structure Indexed (set : UTXOSet) : Prop where
  selfKeyed : set.SelfKeyed
  listed : ∀ key utxo, set.utxos.lookup key = some utxo → key ∈ set.listedKeys utxo.recipient
  stored : ∀ a key, key ∈ set.listedKeys a → set.utxos.lookup key ≠ none

/-- What calls that add only fresh entries keep: the key of an unspent entry is listed once,
for its recipient, and every true balance is in range. -/
structure ListedOnce (set : UTXOSet) : Prop where
  count : ∀ key utxo, set.utxos.lookup key = some utxo → utxo.spent = false → ∀ a,
    (set.listedKeys a).count key = if a = utxo.recipient then 1 else 0
  inRange : ∀ a, set.unspentTotal a < 2 ^ 128

/-- The listed entries are the unspent ones under the listed keys. -/
theorem getAddressUtxos_eq (set : UTXOSet) (address : String) :
    set.getAddressUtxos address =
      (set.listedKeys address).filterMap fun key ↦ (set.utxos.lookup key).filter (!·.spent) := by
  unfold getAddressUtxos listedKeys
  cases set.addressUtxos.lookup address <;> rfl

/-- An entry is listed if it is unspent and its key is listed. -/
theorem mem_getAddressUtxos {set : UTXOSet} {address : String} {utxo : UTXOEntry} :
    utxo ∈ set.getAddressUtxos address ↔
      ∃ key ∈ set.listedKeys address, set.utxos.lookup key = some utxo ∧ utxo.spent = false := by
  simp [getAddressUtxos_eq, Option.filter_eq_some_iff]

private theorem nodup_filterMap_iff {α β : Type} [DecidableEq α] {f : α → Option β}
    (hinj : ∀ a a' b, f a = some b → f a' = some b → a = a') {l : List α} :
    (l.filterMap f).Nodup ↔ ∀ a b, f a = some b → l.count a ≤ 1 := by
  induction l with
  | nil => simp
  | cons x l ih =>
    cases hx : f x with
    | none =>
      rw [List.filterMap_cons_none hx, ih]
      refine forall₃_congr fun a b ha ↦ ?_
      rw [List.count_cons_of_ne]
      rintro rfl
      cases hx.symm.trans ha
    | some c =>
      rw [List.filterMap_cons_some hx, List.nodup_cons, ih, List.mem_filterMap]
      constructor
      · rintro ⟨hn, hl⟩ a b ha
        by_cases hxa : x = a
        · subst hxa
          have hz : l.count x = 0 := List.count_eq_zero.mpr fun hm ↦ hn ⟨x, hm, hx⟩
          rw [List.count_cons_self, hz]
        · rw [List.count_cons_of_ne hxa]
          exact hl a b ha
      · intro hl
        have hxl := hl x c hx
        rw [List.count_cons_self] at hxl
        refine ⟨?_, fun a b ha ↦ (List.count_le_count_cons).trans (hl a b ha)⟩
        rintro ⟨a, hm, ha⟩
        cases hinj a x c ha hx
        have := List.count_pos_iff.mpr hm
        omega

/-- An address has no entry listed twice exactly when no unspent key is. -/
theorem nodup_getAddressUtxos_iff {set : UTXOSet} (h : set.SelfKeyed) (address : String) :
    (set.getAddressUtxos address).Nodup ↔
      ∀ key utxo, set.utxos.lookup key = some utxo → utxo.spent = false →
        (set.listedKeys address).count key ≤ 1 := by
  rw [getAddressUtxos_eq, nodup_filterMap_iff]
  · simp [Option.filter_eq_some_iff]
  · intro key key' utxo hk hk'
    rw [Option.filter_eq_some_iff] at hk hk'
    rw [← h key utxo hk.1, h key' utxo hk'.1]

section Steps

variable {hexDecode : String → Option (List U8)} {set set' : UTXOSet} {e : Event}

/-- An unspent entry adds its amount to its recipient's balance. -/
theorem unspentTotal_stored {utxo : UTXOEntry}
    (hu : set'.utxos = set.utxos.insert (keyOf utxo) utxo)
    (hn : set.getUtxo utxo.txHash utxo.outputIndex = none) (a : String) :
    set'.unspentTotal a = set.unspentTotal a + owned a utxo := by
  have ht := Table.total_insert (owned a) set.utxos (keyOf utxo) utxo
  have hz : Table.valueAt (owned a) set.utxos (keyOf utxo) = 0 := by
    rw [Table.valueAt, show set.utxos.lookup (keyOf utxo) = none from hn, Option.elim_none]
  rwa [hz, Nat.add_zero, ← hu] at ht

/-- A spent entry adds nothing to a balance. -/
theorem unspentTotal_spent {key : String} {utxo : UTXOEntry} (hs : utxo.spent = true)
    (hu : set'.utxos = set.utxos.insert key utxo) (a : String) :
    set'.unspentTotal a ≤ set.unspentTotal a := by
  have ht := Table.total_insert (owned a) set.utxos key utxo
  have hz : owned a utxo = 0 := if_neg (by simp [hs])
  rw [hz, Nat.add_zero, ← hu] at ht
  exact (Nat.le_add_right _ _).trans_eq ht

/-- Every call keeps the index complete and without dangling keys. -/
theorem indexed_step (h : Indexed set) (hs : Step hexDecode set e set') : Indexed set' := by
  refine ⟨selfKeyed_step h.selfKeyed hs, ?_, ?_⟩
  · cases effect_of_step hs with
    | refused => exact h.listed
    | unspendable => exact h.listed
    | stored _ hu hk =>
      rw [hu]
      refine Table.forall_lookup_insert (by simp [hk]) fun key utxo _ hl ↦ ?_
      have hm := h.listed key utxo hl
      rw [hk]
      split
      · exact List.mem_append_left _ hm
      · exact hm
    | spent hg _ hu hk =>
      rw [hu]
      have hm := h.listed _ _ hg
      refine Table.forall_lookup_insert (by simpa only [hk] using hm) fun key utxo _ hl ↦ ?_
      rw [hk]
      exact h.listed key utxo hl
  · cases effect_of_step hs with
    | refused => exact h.stored
    | unspendable => exact h.stored
    | stored _ hu hk =>
      intro a key hm hn
      rw [hu] at hn
      refine Table.forall_lookup_insert_none (P := fun key ↦ key ∉ set'.listedKeys a) ?_ key hn hm
      intro key hne hn hm
      rw [hk] at hm
      split at hm
      · obtain hm | hm := List.mem_append.mp hm
        · exact h.stored a key hm hn
        · exact hne (List.mem_singleton.mp hm)
      · exact h.stored a key hm hn
    | spent _ _ hu hk =>
      intro a key hm hn
      rw [hu] at hn
      rw [hk] at hm
      exact Table.forall_lookup_insert_none (P := fun key ↦ key ∉ set.listedKeys a)
        (fun key _ hn hm ↦ h.stored a key hm hn) key hn hm

/-- A call that adds no entry but a fresh one keeps every unspent key listed once. -/
theorem listedOnce_step (hi : Indexed set) (h : ListedOnce set) (hg : AddsFresh hexDecode set e)
    (hs : Step hexDecode set e set') : ListedOnce set' := by
  constructor
  · cases effect_of_step hs with
    | refused => exact h.count
    | unspendable => exact h.count
    | @stored added _ hst hu hk =>
      rw [hu]
      refine Table.forall_lookup_insert ?_ ?_
      · intro hsp a
        have hn := (hg added rfl hst hsp).1
        have hz : (set.listedKeys a).count (keyOf added) = 0 :=
          List.count_eq_zero.mpr fun hm ↦ hi.stored a _ hm hn
        rw [hk]
        split
        · rw [List.count_append, hz, List.count_singleton_self]
        · exact hz
      · intro key utxo hne hl hsp a
        rw [← h.count key utxo hl hsp a, hk]
        split
        · rw [List.count_append, List.count_singleton]
          simp [Ne.symm hne]
        · rfl
    | spent _ _ hu hk =>
      rw [hu]
      refine Table.forall_lookup_insert (fun hsp ↦ by cases hsp) ?_
      intro key utxo _ hl hsp a
      rw [hk]
      exact h.count key utxo hl hsp a
  · intro a
    have hr := h.inRange a
    cases effect_of_step hs with
    | refused => exact hr
    | unspendable => exact hr
    | @stored added _ hst hu hk =>
      by_cases hsp : added.spent = true
      · exact (unspentTotal_spent hsp hu a).trans_lt hr
      · obtain ⟨hn, hlt⟩ := hg added rfl hst (by simpa using hsp)
        rw [unspentTotal_stored hu hn, owned]
        split
        · next ha => rwa [← ha.2]
        · exact hr
    | spent _ _ hu _ => exact (unspentTotal_spent rfl hu a).trans_lt hr

/-- Where every unspent key is listed once, the index is exact. -/
theorem indexExact_of_listedOnce (hi : Indexed set) (h : ListedOnce set) : IndexExact set := by
  intro a
  have hnd : (set.getAddressUtxos a).Nodup := by
    rw [nodup_getAddressUtxos_iff hi.selfKeyed]
    intro key utxo hl hsp
    rw [h.count key utxo hl hsp a]
    split <;> omega
  have hmem : ∀ utxo, utxo ∈ set.getAddressUtxos a ↔ set.Holds a utxo := by
    intro utxo
    rw [mem_getAddressUtxos]
    constructor
    · rintro ⟨key, hm, hl, hsp⟩
      have hc := h.count key utxo hl hsp a
      have hpos := List.count_pos_iff.mpr hm
      refine ⟨?_, hsp, ?_⟩
      · have hk : keyOf utxo = key := hi.selfKeyed key utxo hl
        rwa [← hk] at hl
      · by_contra hne
        rw [if_neg (Ne.symm hne)] at hc
        omega
    · rintro ⟨hl, hsp, rfl⟩
      exact ⟨keyOf utxo, hi.listed _ _ hl, hl, hsp⟩
  refine ⟨hnd, hmem, ?_⟩
  have hsum : set.unspentTotal a = ((set.getAddressUtxos a).map (·.amount.toNat)).sum :=
    Table.total_ite_eq_sum _ hi.selfKeyed hnd hmem
  have hr := h.inRange a
  rw [hsum] at hr ⊢
  rw [getAddressBalance, Word.toNat_sum, List.map_map]
  exact Nat.mod_eq_of_lt hr

/-- A call after which the index is exact adds no entry but a fresh one. -/
theorem addsFresh_of_indexExact (hi : Indexed set) (hs : Step hexDecode set e set')
    (h : IndexExact set') : AddsFresh hexDecode set e := by
  intro added hc hst hsp
  have hi' := indexed_step hi hs
  cases effect_of_step hs with
  | refused hn =>
    cases hc
    exact absurd hst hn
  | unspendable => cases hc
  | spent => cases hc
  | stored _ hu hk =>
    cases hc
    have hl : set'.utxos.lookup (keyOf added) = some added := by rw [hu, Finmap.lookup_insert]
    have hn : set.getUtxo added.txHash added.outputIndex = none := by
      cases hold : set.getUtxo added.txHash added.outputIndex with
      | none => rfl
      | some old =>
        exfalso
        have hm := hi.listed _ _ hold
        obtain ⟨hnd, hmem, -⟩ := h old.recipient
        have hk' := hk old.recipient
        by_cases hr : old.recipient = added.recipient
        · -- The key is now listed twice for its recipient.
          rw [nodup_getAddressUtxos_iff hi'.selfKeyed] at hnd
          have hcount := hnd _ _ hl hsp
          rw [hk', if_pos hr, List.count_append, List.count_singleton_self] at hcount
          have hpos : 0 < (set.listedKeys old.recipient).count (keyOf added) :=
            List.count_pos_iff.mpr hm
          omega
        · -- The key is still listed for the recipient of the entry that it replaced.
          rw [if_neg hr] at hk'
          rw [← hk'] at hm
          exact hr ((hmem added).mp (mem_getAddressUtxos.mpr ⟨_, hm, hl, hsp⟩)).2.2.symm
    refine ⟨hn, ?_⟩
    have hb := (h added.recipient).2.2
    rw [unspentTotal_stored hu hn, owned, if_pos ⟨hsp, rfl⟩] at hb
    rw [← hb]
    exact BitVec.isLt _

end Steps

/-- The address index is exact in every state of a run exactly when every call of the run
that adds an unspent entry adds a fresh one. -/
theorem indexExact_iff {hexDecode : String → Option (List U8)} {es : List Event} {set : UTXOSet}
    (hr : UTXORun hexDecode es set) :
    Run.Always (Step hexDecode) new (fun _ ↦ IndexExact) es ↔
      Run (Guarded (AddsFresh hexDecode) (Step hexDecode)) new es set := by
  refine Run.always_iff_guarded step_deterministic (I := Indexed) (K := ListedOnce) ?_ ?_
    (fun _ _ _ h hs ↦ indexed_step h hs) (fun _ _ _ hi h hg hs ↦ listedOnce_step hi h hg hs)
    (fun _ ↦ indexExact_of_listedOnce) (fun _ _ _ hi _ hs h ↦ addsFresh_of_indexExact hi hs h) hr
  · exact ⟨fun _ _ hl ↦ by simp [new] at hl, fun _ _ hl ↦ by simp [new] at hl,
      fun _ _ hm ↦ by simp [new, listedKeys] at hm⟩
  · exact ⟨fun _ _ hl ↦ by simp [new] at hl, fun _ ↦ Nat.two_pow_pos 128⟩

/-- The set after the coin was added again. -/
def withAliceUtxoTwice : UTXOSet := withAliceUtxo.after Hex.base16.decode (.addUtxo aliceUtxo)

/-- Adding the coin again lists it twice, and doubles the balance of its owner. -/
theorem utxo_listed_twice :
    UTXORun Hex.base16.decode [⟨.addUtxo aliceUtxo, .ok ()⟩, ⟨.addUtxo aliceUtxo, .ok ()⟩]
        withAliceUtxoTwice ∧
      withAliceUtxoTwice.getAddressUtxos "alice" = [aliceUtxo, aliceUtxo] ∧
      withAliceUtxoTwice.getAddressBalance "alice" = 200 ∧ ¬IndexExact withAliceUtxoTwice := by
  have hu : withAliceUtxoTwice.getAddressUtxos "alice" = [aliceUtxo, aliceUtxo] := by
    simp only [withAliceUtxoTwice, withAliceUtxo, after, perform,
      addUtxo_of_storable storable_aliceUtxo]
    decide +kernel
  have hb : withAliceUtxoTwice.getAddressBalance "alice" = 200 := by
    rw [getAddressBalance, hu]
    rfl
  refine ⟨.snoc withAliceUtxo_run (step_addUtxo storable_aliceUtxo), hu, hb, ?_⟩
  intro h
  have hnd := (h "alice").1
  rw [hu] at hnd
  simp at hnd

/-- A run whose index stays exact: the coin is added once. -/
theorem indexExact_iff_once :
    Run.Always (Step Hex.base16.decode) new (fun _ ↦ IndexExact) [⟨.addUtxo aliceUtxo, .ok ()⟩] ↔
      Run (Guarded (AddsFresh Hex.base16.decode) (Step Hex.base16.decode)) new
        [⟨.addUtxo aliceUtxo, .ok ()⟩] withAliceUtxo :=
  indexExact_iff withAliceUtxo_run

end SilverPow.Ledger.UTXOSet
