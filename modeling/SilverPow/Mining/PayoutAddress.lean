import SilverPow.Mining.Registry

/-!
# Whom a payout reaches

`process_payout` takes an address and checks that it is one, but the accounts are kept under
the ids of the miners. The amount goes to the miner whose id the address is, and to the miner
with the address only if these are the same bytes.
-/

namespace SilverPow.Mining

open SilverPow.Base MiningPool

/-- A payout to an account's address succeeds and adds the amount to what is pending on the
account and to what it has earned, and it changes no other account. -/
structure PayoutReaches (s : MiningPool) (account : MinerAccount) (amount : U128) : Prop where
  ok : (s.processPayout account.minerAddress amount).1 = .ok ()
  paid : ∃ account', (s.processPayout account.minerAddress amount).2.minerAccounts.lookup
      account.minerId = some account' ∧
    account'.pendingPayout.toNat = account.pendingPayout.toNat + amount.toNat ∧
    account'.totalEarnings.toNat = account.totalEarnings.toNat + amount.toNat ∧
    account' = { account with
      pendingPayout := account'.pendingPayout, totalEarnings := account'.totalEarnings }
  others : ∀ minerId, minerId ≠ account.minerId →
    (s.processPayout account.minerAddress amount).2.minerAccounts.lookup minerId =
      s.minerAccounts.lookup minerId

/-- An amount fits on top of what is pending on an account and of what it has earned. -/
def Fits (account : MinerAccount) (amount : U128) : Prop :=
  account.pendingPayout.toNat + amount.toNat < 2 ^ 128 ∧
    account.totalEarnings.toNat + amount.toNat < 2 ^ 128

variable {s : MiningPool} {account : MinerAccount} {amount : U128}

/-- A payout to a miner's own id reaches the miner. -/
theorem payoutReaches_of_eq (hl : s.minerAccounts.lookup account.minerId = some account)
    (hv : validateMinerAddress account.minerAddress = .ok ()) (ha : amount ≠ 0)
    (hfits : Fits account amount) (heq : account.minerId = account.minerAddress) :
    PayoutReaches s account amount := by
  have hpay : s.processPayout account.minerAddress amount =
      (.ok (), s.payMiner account.minerAddress amount) := by
    rw [processPayout, hv]
    dsimp only
    rw [if_neg ha, ← heq, hl, Option.isSome_some, if_pos rfl]
  constructor
  · rw [hpay]
  · refine ⟨account.addPayout amount, ?_, ?_, ?_, rfl⟩
    · rw [hpay, payMiner, Table.lookup_modify, if_pos heq, heq.symm, hl]
      rfl
    · rw [MinerAccount.addPayout, BitVec.toNat_add, Nat.mod_eq_of_lt hfits.1]
    · rw [MinerAccount.addPayout, BitVec.toNat_add, Nat.mod_eq_of_lt hfits.2]
  · intro minerId hne
    rw [hpay, payMiner, Table.lookup_modify, if_neg (heq ▸ hne)]

/-- A payout leaves every account alone that is not kept under its address. -/
theorem lookup_processPayout_of_ne (s : MiningPool) {minerAddress minerId : Bytes} (amount : U128)
    (h : minerId ≠ minerAddress) :
    (s.processPayout minerAddress amount).2.minerAccounts.lookup minerId =
      s.minerAccounts.lookup minerId := by
  unfold processPayout
  split
  · rfl
  · split
    · rfl
    · split
      · rw [payMiner, Table.lookup_modify, if_neg h]
      · rfl

/-- In every run, a payout to the address of a miner reaches the miner exactly when it is also
the miner's id. -/
theorem payoutReaches_iff {config : PoolConfig} {es : List Event} (h : PoolRun config es s)
    {minerId : Bytes} (hl : s.minerAccounts.lookup minerId = some account)
    (hv : validateMinerAddress account.minerAddress = .ok ()) (ha : amount ≠ 0)
    (hfits : Fits account amount) :
    PayoutReaches s account amount ↔ account.minerId = account.minerAddress := by
  obtain rfl : account.minerId = minerId := ((registry_of_run h).account minerId account hl).1
  constructor
  · rintro ⟨-, ⟨account', hl', hpending, -⟩, -⟩
    by_contra hne
    rw [lookup_processPayout_of_ne s amount hne, hl] at hl'
    cases hl'
    have hpos : 0 < amount.toNat := BitVec.toNat_pos_of_ne_zero ha
    omega
  · exact payoutReaches_of_eq hl hv ha hfits

/-- A miner of the given id and address, registered in a new pool. -/
def registered (minerId minerAddress : Bytes) : MiningPool :=
  [Event.mk (.registerMiner minerId minerAddress) 5].foldl step (.new .new)

theorem lookup_registered (minerId minerAddress : Bytes) :
    (registered minerId minerAddress).minerAccounts.lookup minerId =
      some (.new minerId minerAddress 5) :=
  Finmap.lookup_insert _

/-- A miner whose id is its address is paid. -/
theorem payoutReaches_iff_own :
    PayoutReaches (registered (List.replicate 20 7) (List.replicate 20 7))
      (.new (List.replicate 20 7) (List.replicate 20 7) 5) 100 := by
  apply (payoutReaches_iff (Run.foldl _ _ _) (lookup_registered _ _) _ _ _).mpr rfl
  · decide
  · decide
  · exact ⟨by decide, by decide⟩

/-- A payout to the address of the only miner finds no account. -/
theorem payout_not_found :
    (registered [1] (List.replicate 20 7)).minerAccounts.lookup [1] =
        some (.new [1] (List.replicate 20 7) 5) ∧
      validateMinerAddress (List.replicate 20 7) = .ok () ∧
      ((registered [1] (List.replicate 20 7)).processPayout (List.replicate 20 7) 100).1 =
        .error "Miner account not found" := by
  refine ⟨lookup_registered _ _, by decide, ?_⟩
  decide +kernel

end SilverPow.Mining
