import SilverPow.Ledger.Utxo

/-!
# Coins that are spent once

`spend_utxo` sets a flag that `add_utxo` overwrites with the flag of the entry it is given.
A coin that was spent stays spent exactly as long as no later call adds its outpoint as
unspent again.
-/

namespace SilverPow.Ledger.UTXOSet

open SilverPow.Base

/-- The outpoint that a call has spent. -/
def Event.spentOutpoint : Event → Option (String × U32)
  | ⟨.spendUtxo txHash outputIndex, .ok ()⟩ => some (txHash, outputIndex)
  | _ => none

/-- The outpoints that the calls have spent, in order. -/
def spentOutpoints (es : List Event) : List (String × U32) := es.filterMap (·.spentOutpoint)

/-- No outpoint was spent twice, and none that was spent validates. -/
def CoinsSpentOnce (es : List Event) (set : UTXOSet) : Prop :=
  (spentOutpoints es).Nodup ∧
    ∀ o ∈ spentOutpoints es, ∃ e, set.validateUtxo o.1 o.2 = .error e

/-- The later call does not add as unspent the outpoint that the earlier one has spent. -/
def LeavesSpent (earlier later : Event) : Prop :=
  ∀ utxo, later.call = .addUtxo utxo →
    earlier.spentOutpoint = some (utxo.txHash, utxo.outputIndex) →
    utxo.spent = true ∨ utxo.amount = 0

/-- Every outpoint that was spent has an entry with the flag set, and was spent once. -/
def SpentStay (es : List Event) (set : UTXOSet) : Prop :=
  (spentOutpoints es).Nodup ∧
    ∀ o ∈ spentOutpoints es, ∃ utxo, set.getUtxo o.1 o.2 = some utxo ∧ utxo.spent = true

/-- The outpoints that were spent pass the checks on transaction hashes. -/
def SpentChecked (hexDecode : String → Option (List U8)) (es : List Event) : Prop :=
  ∀ o ∈ spentOutpoints es, o.1.utf8ByteSize = 128 ∧ (hexDecode o.1).isSome

/-- An outpoint fails to validate exactly when it has no unspent entry. -/
theorem validateUtxo_error_iff {set : UTXOSet} {txHash : String} {outputIndex : U32} :
    (∃ e, set.validateUtxo txHash outputIndex = .error e) ↔
      ∀ utxo, set.getUtxo txHash outputIndex = some utxo → utxo.spent = true := by
  unfold validateUtxo
  cases set.getUtxo txHash outputIndex with
  | none => simp
  | some utxo => cases h : utxo.spent <;> simp [h]

private theorem spentOutpoints_concat (es : List Event) (e : Event) :
    spentOutpoints (es ++ [e]) = spentOutpoints es ++ e.spentOutpoint.toList := by
  unfold spentOutpoints
  cases h : e.spentOutpoint <;> simp [h]

private theorem mem_spentOutpoints {es : List Event} {o : String × U32} :
    o ∈ spentOutpoints es ↔ ∃ e ∈ es, e.spentOutpoint = some o :=
  List.mem_filterMap

section Runs

variable {hexDecode : String → Option (List U8)} {es : List Event} {set set' : UTXOSet}
  {e : Event}

/-- Only outpoints that pass the checks are ever spent. -/
theorem spentChecked_of_run (h : UTXORun hexDecode es set) : SpentChecked hexDecode es := by
  induction h with
  | nil => exact fun o ho ↦ absurd ho List.not_mem_nil
  | snoc hr hs ih =>
    intro o ho
    rw [spentOutpoints_concat] at ho
    obtain ho | ho := List.mem_append.mp ho
    · exact ih o ho
    · cases effect_of_step hs with
      | refused => cases ho
      | stored => cases ho
      | unspendable => cases ho
      | spent hg =>
        cases List.mem_singleton.mp ho
        have hst := storable_of_run hr hg
        have hk := outpointKey_inj.mp (selfKeyed_of_run hr _ _ hg)
        rw [← hk.1]
        exact hst.2

/-- A call that does not add a spent coin as unspent leaves every spent coin spent. -/
theorem spentStay_step (h : SpentStay es set) (hg : ∀ e' ∈ es, LeavesSpent e' e)
    (hs : Step hexDecode set e set') : SpentStay (es ++ [e]) set' := by
  obtain ⟨hnd, hall⟩ := h
  rw [SpentStay, spentOutpoints_concat]
  cases effect_of_step hs with
  | refused => simpa [Event.spentOutpoint] using ⟨hnd, by simpa using hall⟩
  | unspendable => simpa [Event.spentOutpoint] using ⟨hnd, by simpa using hall⟩
  | @stored added _ hst hu _ =>
    simp only [Event.spentOutpoint, Option.toList_none, List.append_nil]
    refine ⟨hnd, fun o ho ↦ ?_⟩
    by_cases hk : outpointKey o.1 o.2 = keyOf added
    · obtain ⟨e', he', hsp⟩ := mem_spentOutpoints.mp ho
      obtain ⟨h₁, h₂⟩ := outpointKey_inj.mp hk
      rw [show o = (added.txHash, added.outputIndex) from Prod.ext h₁ h₂] at hsp
      refine ⟨added, ?_, (hg e' he' added rfl hsp).resolve_right hst.1⟩
      rw [getUtxo, hu, hk, Finmap.lookup_insert]
    · rw [getUtxo, hu, Finmap.lookup_insert_of_ne _ hk]
      exact hall o ho
  | @spent txHash outputIndex utxo _ hget hf hu _ =>
    simp only [Event.spentOutpoint, Option.toList_some]
    constructor
    · refine List.nodup_append.mpr ⟨hnd, List.nodup_singleton _, ?_⟩
      rintro o ho o' ho' rfl
      cases List.mem_singleton.mp ho'
      -- The flag of a coin that was spent before is still set.
      obtain ⟨u, hgu, hsp⟩ := hall _ ho
      cases hget.symm.trans hgu
      cases hf.symm.trans hsp
    · intro o ho
      by_cases hk : outpointKey o.1 o.2 = outpointKey txHash outputIndex
      · exact ⟨_, by rw [getUtxo, hu, hk, Finmap.lookup_insert], rfl⟩
      · rw [getUtxo, hu, Finmap.lookup_insert_of_ne _ hk]
        obtain ho | ho := List.mem_append.mp ho
        · exact hall o ho
        · cases List.mem_singleton.mp ho
          exact absurd rfl hk

/-- In a run that adds no spent coin as unspent, every spent coin stays spent. -/
theorem spentStay_of_run (h : UTXORun hexDecode es set) (hg : es.Pairwise LeavesSpent) :
    SpentStay es set := by
  induction h with
  | nil => exact ⟨List.nodup_nil, fun o ho ↦ absurd ho List.not_mem_nil⟩
  | snoc hr hs ih =>
    obtain ⟨hes, -, hcross⟩ := List.pairwise_append.mp hg
    exact spentStay_step (ih hes) (fun e' he' ↦ hcross e' he' _ (List.mem_singleton_self _)) hs

/-- Coins that stay spent are spent once. -/
theorem coinsSpentOnce_of_spentStay (h : SpentStay es set) : CoinsSpentOnce es set := by
  refine ⟨h.1, fun o ho ↦ validateUtxo_error_iff.mpr fun utxo hu ↦ ?_⟩
  obtain ⟨u, hgu, hsp⟩ := h.2 o ho
  cases hgu.symm.trans hu
  exact hsp

/-- A call after which no spent coin validates does not add one as unspent. -/
theorem leavesSpent_of_coinsSpentOnce (hr : UTXORun hexDecode es set)
    (hs : Step hexDecode set e set') (h : CoinsSpentOnce (es ++ [e]) set') :
    ∀ e' ∈ es, LeavesSpent e' e := by
  intro e' he' added hc hsp
  by_contra hn
  obtain ⟨hf, hz⟩ := not_or.mp hn
  have ho : (added.txHash, added.outputIndex) ∈ spentOutpoints es :=
    mem_spentOutpoints.mpr ⟨e', he', hsp⟩
  have hst : Storable hexDecode added := ⟨hz, spentChecked_of_run hr _ ho⟩
  have hu : set'.getUtxo added.txHash added.outputIndex = some added := by
    cases effect_of_step hs with
    | refused hn =>
      cases hc
      exact absurd hst hn
    | unspendable => cases hc
    | spent => cases hc
    | stored _ hu _ =>
      cases hc
      rw [getUtxo, hu, Finmap.lookup_insert]
  have ho' : (added.txHash, added.outputIndex) ∈ spentOutpoints (es ++ [e]) := by
    rw [spentOutpoints_concat]
    exact List.mem_append_left _ ho
  exact hf (validateUtxo_error_iff.mp (h.2 _ ho') added hu)

/-- In every state of a run each coin was spent at most once and none that was spent
validates, exactly when no call of the run adds as unspent what an earlier one has spent. -/
theorem coinsSpentOnce_iff (hr : UTXORun hexDecode es set) :
    Run.Always (Step hexDecode) new CoinsSpentOnce es ↔ es.Pairwise LeavesSpent := by
  induction hr with
  | nil =>
    have hnil : UTXORun hexDecode [] new := .nil
    exact ⟨fun _ ↦ .nil, fun hp ↦ Run.always_nil (coinsSpentOnce_of_spentStay
      (spentStay_of_run hnil hp))⟩
  | snoc hr hs ih =>
    rw [Run.always_snoc_iff step_deterministic (.snoc hr hs), List.pairwise_append]
    constructor
    · rintro ⟨ha, hp⟩
      refine ⟨ih.mp ha, List.pairwise_singleton _ _, fun e' he' e he ↦ ?_⟩
      cases List.mem_singleton.mp he
      exact leavesSpent_of_coinsSpentOnce hr hs hp e' he'
    · rintro ⟨hes, -, hcross⟩
      have hst := spentStay_step (spentStay_of_run hr hes)
        (fun e' he' ↦ hcross e' he' _ (List.mem_singleton_self _)) hs
      exact ⟨ih.mpr hes, coinsSpentOnce_of_spentStay hst⟩

end Runs

/-- A coin is added, spent, added again and spent again. -/
def respendEvents : List Event :=
  [⟨.addUtxo aliceUtxo, .ok ()⟩, ⟨.spendUtxo aliceUtxo.txHash 0, .ok ()⟩,
    ⟨.addUtxo aliceUtxo, .ok ()⟩, ⟨.spendUtxo aliceUtxo.txHash 0, .ok ()⟩]

/-- All four calls return `Ok`: the coin is spent twice. -/
theorem coin_spent_twice :
    ∃ set, UTXORun Hex.base16.decode respendEvents set ∧
      spentOutpoints respendEvents = [(aliceUtxo.txHash, 0), (aliceUtxo.txHash, 0)] ∧
      ¬CoinsSpentOnce respendEvents set := by
  have hg : ∀ set : UTXOSet,
      (set.after Hex.base16.decode (.addUtxo aliceUtxo)).getUtxo aliceUtxo.txHash 0 =
        some aliceUtxo :=
    fun set ↦ getUtxo_addUtxo storable_aliceUtxo
  have hs : spentOutpoints respendEvents = [(aliceUtxo.txHash, 0), (aliceUtxo.txHash, 0)] := rfl
  refine ⟨_, .snoc (.snoc (.snoc withAliceUtxo_run (step_spendUtxo (hg _) rfl))
    (step_addUtxo storable_aliceUtxo)) (step_spendUtxo (hg _) rfl), hs, fun h ↦ ?_⟩
  have hnd := h.1
  rw [hs] at hnd
  simp at hnd

/-- A run that meets the condition: the coin is added and spent. -/
theorem coinsSpentOnce_iff_once :
    Run.Always (Step Hex.base16.decode) new CoinsSpentOnce
        [⟨.addUtxo aliceUtxo, .ok ()⟩, ⟨.spendUtxo aliceUtxo.txHash 0, .ok ()⟩] ↔
      [⟨.addUtxo aliceUtxo, .ok ()⟩, ⟨.spendUtxo aliceUtxo.txHash 0, .ok ()⟩].Pairwise
        LeavesSpent :=
  coinsSpentOnce_iff (.snoc withAliceUtxo_run
    (step_spendUtxo (getUtxo_addUtxo storable_aliceUtxo) rfl))

end SilverPow.Ledger.UTXOSet
