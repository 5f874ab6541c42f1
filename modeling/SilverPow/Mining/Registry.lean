import SilverPow.Mining.Pool

/-!
# The registry of a mining pool

Two tables and a counter record who is registered, and each operation updates them by
hand. Their agreement is one invariant: it speaks about the outcomes so far, because an
account keeps the address that the latest successful registration gave.
-/

namespace SilverPow.Mining

open SilverPow.Base MiningPool

/-- The address given at the latest successful registration of a miner. -/
def lastAddress (minerId : Bytes) (log : List Outcome) : Option Bytes :=
  log.reverse.findSome? fun
    | .registered id minerAddress => if id = minerId then some minerAddress else none
    | _ => none

/-- The tables of miners and of accounts and the counter agree. -/
structure Registry (log : List Outcome) (s : MiningPool) : Prop where
  keys : s.miners.keys = s.minerAccounts.keys
  account : ∀ minerId account, s.minerAccounts.lookup minerId = some account →
    account.minerId = minerId ∧ lastAddress minerId log = some account.minerAddress
  connected : s.stats.connectedMiners = s.miners.entries.card
  le_max : s.miners.entries.card ≤ s.config.maxMiners

/-- A registration gives its address to its own miner. -/
theorem lastAddress_registered (minerId : Bytes) (log : List Outcome)
    (id minerAddress : Bytes) : lastAddress minerId (log ++ [.registered id minerAddress]) =
      if id = minerId then some minerAddress else lastAddress minerId log := by
  simp only [lastAddress, List.reverse_append, List.reverse_singleton, List.singleton_append,
    List.findSome?_cons]
  by_cases h : id = minerId
  · rw [if_pos h, if_pos h]
  · rw [if_neg h, if_neg h]

/-- No other outcome gives an address. -/
theorem lastAddress_concat (minerId : Bytes) (log : List Outcome) {o : Outcome}
    (h : ∀ id minerAddress, o ≠ .registered id minerAddress) :
    lastAddress minerId (log ++ [o]) = lastAddress minerId log := by
  cases o with
  | registered id minerAddress => exact absurd rfl (h id minerAddress)
  | _ => simp [lastAddress]

/-- A pool without miners. -/
theorem registry_new (config : PoolConfig) : Registry [] (.new config) where
  keys := rfl
  account minerId account hl := by cases hl
  connected := rfl
  le_max := Nat.zero_le _

/-- A miner without an account is not registered, and the other way around. -/
theorem Registry.lookup_eq_none_iff {log : List Outcome} {s : MiningPool} (h : Registry log s)
    (minerId : Bytes) :
    s.miners.lookup minerId = none ↔ s.minerAccounts.lookup minerId = none := by
  rw [Finmap.lookup_eq_none, Finmap.lookup_eq_none, ← Finmap.mem_keys, ← Finmap.mem_keys, h.keys]

/-- An outcome that is no registration leaves the registry as it was. -/
theorem Registry.concat {log : List Outcome} {s : MiningPool} (h : Registry log s) {o : Outcome}
    (ho : ∀ id minerAddress, o ≠ .registered id minerAddress) : Registry (log ++ [o]) s := by
  refine ⟨h.keys, fun minerId account hl ↦ ?_, h.connected, h.le_max⟩
  rw [lastAddress_concat _ _ ho]
  exact h.account minerId account hl

/-- A change of an account that keeps its id and its address keeps the registry. -/
theorem Registry.modify {log : List Outcome} {s s' : MiningPool} (h : Registry log s)
    {minerId : Bytes} {f : MinerAccount → MinerAccount} (hid : ∀ a, (f a).minerId = a.minerId)
    (haddress : ∀ a, (f a).minerAddress = a.minerAddress) (hminers : s'.miners = s.miners)
    (haccounts : s'.minerAccounts = s.minerAccounts.modify minerId f)
    (hstats : s'.stats.connectedMiners = s.stats.connectedMiners) (hconfig : s'.config = s.config) :
    Registry log s' := by
  refine ⟨?_, ?_, ?_, ?_⟩
  · rw [hminers, haccounts, Table.keys_modify, h.keys]
  · rw [haccounts]
    apply Table.forall_lookup_modify
    · intro account hl
      rw [hid, haddress]
      exact h.account minerId account hl
    · intro a account _ hl
      exact h.account a account hl
  · rw [hstats, hminers, h.connected]
  · rw [hminers, hconfig]
    exact h.le_max

/-- Every call keeps the registry. -/
theorem Registry.effect {log : List Outcome} {s s' : MiningPool} {o : Outcome}
    (h : Registry log s) (he : Effect s o s') : Registry (log ++ [o]) s' := by
  cases he with
  | @registered minerId minerAddress now hlt hl =>
    have hcard := Table.card_entries_insert (⟨1⟩ : Miner) hl
    constructor
    · exact (Table.keys_insert _ _ _).trans (h.keys ▸ (Table.keys_insert _ _ _).symm)
    · apply Table.forall_lookup_insert
      · exact ⟨rfl, by rw [lastAddress_registered, if_pos rfl]; rfl⟩
      · intro a account ha hl
        rw [lastAddress_registered, if_neg (Ne.symm ha)]
        exact h.account a account hl
    · rfl
    · exact hcard.trans_le hlt
  | @unregistered minerId =>
    have hc := h.concat (o := .unregistered minerId) fun _ _ ↦ by simp
    constructor
    · exact (Finmap.keys_erase _ _).trans (h.keys ▸ (Finmap.keys_erase _ _).symm)
    · exact Table.forall_lookup_erase fun a account _ hl ↦ hc.account a account hl
    · rfl
    · exact (Table.card_entries_erase_le _ _).trans h.le_max
  | accepted =>
    exact (h.concat fun _ _ ↦ by simp).modify (f := .addShare _) (fun _ ↦ rfl) (fun _ ↦ rfl)
      rfl rfl rfl rfl
  | rejected =>
    have hc := h.concat (o := .rejected) fun _ _ ↦ by simp
    exact ⟨hc.keys, hc.account, hc.connected, hc.le_max⟩
  | paid =>
    exact (h.concat fun _ _ ↦ by simp).modify (f := .addPayout _) (fun _ ↦ rfl) (fun _ ↦ rfl)
      rfl rfl rfl rfl
  | refused => exact h.concat fun _ _ ↦ by simp

/-- The registry holds in every run of a pool. -/
theorem registry_of_run {config : PoolConfig} {es : List Event} {s : MiningPool}
    (h : PoolRun config es s) : Registry (outcomes config es) s :=
  outcomes_invariant Registry (registry_new config) (fun _ _ _ _ hi he ↦ hi.effect he) h

/-- A registration that fails changes nothing. -/
theorem registerMiner_error {s : MiningPool} {minerId minerAddress : Bytes} {now : U64}
    {e : String} (h : (s.registerMiner minerId minerAddress now).1 = .error e) :
    (s.registerMiner minerId minerAddress now).2 = s := by
  unfold registerMiner at h ⊢
  split
  · rfl
  · next hm =>
    rw [if_neg hm] at h
    split
    · rfl
    · next hl =>
      rw [if_neg hl] at h
      cases h

/-- In every run of a pool the two tables have the same keys, every account is that of its
latest registration, the counter is the number of miners and within the limit, and a
registration that fails changes nothing. -/
theorem registryKept_of_run {config : PoolConfig} {es : List Event} {s : MiningPool}
    (h : PoolRun config es s) :
    s.miners.keys = s.minerAccounts.keys ∧
      (∀ minerId account, s.minerAccounts.lookup minerId = some account →
        account.minerId = minerId ∧
          lastAddress minerId (outcomes config es) = some account.minerAddress) ∧
      s.stats.connectedMiners = s.miners.entries.card ∧
      s.miners.entries.card ≤ config.maxMiners ∧
      ∀ minerId minerAddress now e, (s.registerMiner minerId minerAddress now).1 = .error e →
        (s.registerMiner minerId minerAddress now).2 = s := by
  have hr := registry_of_run h
  refine ⟨hr.keys, hr.account, hr.connected, ?_, fun _ _ _ _ ↦ registerMiner_error⟩
  rw [← config_of_run h]
  exact hr.le_max

/-- A miner that registers again after it left, in a pool that has room for one. -/
theorem registryKept_of_return :
    let config : PoolConfig := ⟨1_000, 1, 1⟩
    let es : List Event := [⟨.registerMiner [1] [7], 5⟩, ⟨.registerMiner [2] [8], 6⟩,
      ⟨.unregisterMiner [1], 7⟩, ⟨.registerMiner [1] [9], 8⟩]
    let s := es.foldl step (.new config)
    s.miners.keys = s.minerAccounts.keys ∧
      (∀ minerId account, s.minerAccounts.lookup minerId = some account →
        account.minerId = minerId ∧
          lastAddress minerId (outcomes config es) = some account.minerAddress) ∧
      s.stats.connectedMiners = s.miners.entries.card ∧ s.miners.entries.card ≤ 1 ∧
      ∀ minerId minerAddress now e, (s.registerMiner minerId minerAddress now).1 = .error e →
        (s.registerMiner minerId minerAddress now).2 = s :=
  registryKept_of_run (Run.foldl _ _ _)

end SilverPow.Mining
