import SilverPow.Mining.Registry

/-!
# What a mining pool owes

`process_payout` adds to what is pending on an account, and `unregister_miner` removes
the account with it. So the pending amounts add up to what was paid as long as no miner
leaves while something is pending.
-/

namespace SilverPow.Mining

open SilverPow.Base MiningPool

/-- The pending amounts of all accounts. -/
def owed (s : MiningPool) : Nat := s.minerAccounts.total (·.pendingPayout.toNat)

/-- The amount of a payout. -/
def Outcome.amountPaid : Outcome → Nat
  | .paid _ amount => amount.toNat
  | _ => 0

/-- The amounts of all successful payouts. -/
def paidTotal (log : List Outcome) : Nat := (log.map (·.amountPaid)).sum

/-- A miner that leaves has nothing pending. -/
def Settled (s : MiningPool) (e : Event) : Prop :=
  ∀ minerId account, e.call = .unregisterMiner minerId →
    s.minerAccounts.lookup minerId = some account → account.pendingPayout = 0

/-- A payout adds its amount. -/
theorem paidTotal_concat (log : List Outcome) (o : Outcome) :
    paidTotal (log ++ [o]) = paidTotal log + o.amountPaid := by
  simp [paidTotal]

/-- A longer run has paid at least as much. -/
theorem paidTotal_mono {config : PoolConfig} {es es' : List Event} (hp : es' <+: es) :
    paidTotal (outcomes config es') ≤ paidTotal (outcomes config es) := by
  obtain ⟨es, rfl⟩ := hp
  induction es using List.reverseRecOn with
  | nil => rw [List.append_nil]
  | append_singleton es e ih =>
    rw [← List.append_assoc, outcomes_concat (Run.foldl _ _ _), paidTotal_concat]
    exact ih.trans (Nat.le_add_right _ _)

/-- Only the call that removes an account has that outcome. -/
theorem outcome_eq_unregistered_iff {s : MiningPool} {e : Event} {minerId : Bytes} :
    s.outcome e = .unregistered minerId ↔ e.call = .unregisterMiner minerId := by
  cases hc : e.call with
  | registerMiner id minerAddress =>
    cases hr : (s.registerMiner id minerAddress e.now).1 <;> simp [outcome, hc, hr]
  | unregisterMiner id => simp [outcome, hc]
  | submitShare share =>
    cases hr : (s.submitShare share e.now).1 <;> simp [outcome, hc, hr]
  | processPayout minerAddress amount =>
    cases hr : (s.processPayout minerAddress amount).1 <;> simp [outcome, hc, hr]

/-- A miner that leaves takes what is pending on its account with it. -/
theorem owed_unregisterMiner_iff (s : MiningPool) (minerId : Bytes) :
    owed (s.unregisterMiner minerId) = owed s ↔
      ∀ account, s.minerAccounts.lookup minerId = some account → account.pendingPayout = 0 := by
  have ht := Table.total_erase (·.pendingPayout.toNat) s.minerAccounts minerId
  change owed (s.unregisterMiner minerId) + _ = owed s at ht
  rw [← ht, left_eq_add]
  cases hl : s.minerAccounts.lookup minerId with
  | none => simp [Table.valueAt, hl]
  | some account =>
    rw [Table.valueAt, hl, Option.elim_some]
    simp [← BitVec.toNat_inj]

/-- A payout adds its amount to what is owed, unless the sum is too large for a word. -/
theorem owed_payMiner {s : MiningPool} {minerAddress : Bytes} {amount : U128}
    {account : MinerAccount} (hl : s.minerAccounts.lookup minerAddress = some account)
    (hlt : owed s + amount.toNat < 2 ^ 128) :
    owed (s.payMiner minerAddress amount) = owed s + amount.toNat := by
  -- What is pending on the account is part of what is owed, so the new amount does not wrap.
  have hle := Table.valueAt_le_total (·.pendingPayout.toNat) s.minerAccounts minerAddress
  have ht := Table.total_modify (·.pendingPayout.toNat) (.addPayout amount) hl
  rw [Table.valueAt, hl, Option.elim_some] at hle
  have hadd : (account.pendingPayout + amount).toNat =
      account.pendingPayout.toNat + amount.toNat := by
    rw [BitVec.toNat_add, Nat.mod_eq_of_lt]
    exact (Nat.add_le_add_right hle _).trans_lt hlt
  change owed (s.payMiner minerAddress amount) + account.pendingPayout.toNat =
    owed s + (account.pendingPayout + amount).toNat at ht
  omega

/-- A call keeps the balance exactly if it does not remove an account with something
pending. -/
theorem owed_effect_iff {log : List Outcome} {s s' : MiningPool} {o : Outcome}
    (hr : Registry log s) (ho : owed s = paidTotal log)
    (hlt : paidTotal (log ++ [o]) < 2 ^ 128) (he : Effect s o s') :
    owed s' = paidTotal (log ++ [o]) ↔ ∀ minerId account, o = .unregistered minerId →
      s.minerAccounts.lookup minerId = some account → account.pendingPayout = 0 := by
  rw [paidTotal_concat] at hlt ⊢
  rw [← ho] at hlt ⊢
  cases he with
  | @registered minerId minerAddress now _ hl =>
    have ht := Table.total_insert (·.pendingPayout.toNat) s.minerAccounts minerId
      (.new minerId minerAddress now)
    rw [Table.valueAt, (hr.lookup_eq_none_iff minerId).mp hl] at ht
    exact iff_of_true ht (fun _ _ h ↦ by cases h)
  | @unregistered minerId =>
    refine (owed_unregisterMiner_iff s minerId).trans ⟨?_, fun h account ↦ h _ account rfl⟩
    rintro h id account hid
    cases hid
    exact h account
  | @accepted share now =>
    refine iff_of_true ?_ (fun _ _ h ↦ by cases h)
    exact Table.total_modify_of_eq _ _ _ (g := MinerAccount.addShare now) fun _ ↦ rfl
  | rejected => exact iff_of_true rfl (fun _ _ h ↦ by cases h)
  | paid hl => exact iff_of_true (owed_payMiner hl hlt) (fun _ _ h ↦ by cases h)
  | refused => exact iff_of_true rfl (fun _ _ h ↦ by cases h)

/-- While the successful payouts sum to an amount, a pool owes what was paid in every
state of a run exactly if no miner leaves with something pending. -/
theorem owed_eq_paid_iff {config : PoolConfig} {es : List Event} {s : MiningPool}
    (h : PoolRun config es s) (hlt : paidTotal (outcomes config es) < 2 ^ 128) :
    Run.Always (fun s e s' ↦ s' = s.step e) (.new config)
        (fun es s ↦ owed s = paidTotal (outcomes config es)) es ↔
      Run (Guarded Settled fun s e s' ↦ s' = s.step e) (.new config) es s := by
  refine Run.always_iff_guarded_of_next (P := fun es s ↦ owed s = paidTotal (outcomes config es))
    (fun _ _ _ ↦ id) rfl h fun es' t e t' hp hr ho hs ↦ ?_
  subst hs
  rw [outcomes_concat hr, owed_effect_iff (registry_of_run hr) ho ?_ (effect_step t e)]
  · simp only [outcome_eq_unregistered_iff]
    rfl
  · rw [← outcomes_concat hr]
    exact (paidTotal_mono hp).trans_lt hlt

/-- A miner registers under its address and is owed 5. -/
def paidEvents : List Event :=
  [⟨.registerMiner (List.replicate 20 1) (List.replicate 20 1), 5⟩,
    ⟨.processPayout (List.replicate 20 1) 5, 6⟩]

/-- The miner leaves. -/
def leavingEvents : List Event :=
  paidEvents ++ [⟨.unregisterMiner (List.replicate 20 1), 7⟩]

/-- With the miner, what it was owed is gone. -/
theorem owed_lost :
    PoolRun .new leavingEvents (leavingEvents.foldl step (.new .new)) ∧
      paidTotal (outcomes .new leavingEvents) = 5 ∧
      owed (leavingEvents.foldl step (.new .new)) = 0 :=
  ⟨Run.foldl _ _ _, by decide +kernel, by decide +kernel⟩

/-- The run up to the payout. -/
theorem owed_eq_paid_iff_paid :
    Run.Always (fun s e s' ↦ s' = s.step e) (.new .new)
        (fun es s ↦ owed s = paidTotal (outcomes .new es)) paidEvents ↔
      Run (Guarded Settled fun s e s' ↦ s' = s.step e) (.new .new) paidEvents
        (paidEvents.foldl step (.new .new)) :=
  owed_eq_paid_iff (Run.foldl _ _ _) (by decide +kernel)

end SilverPow.Mining
