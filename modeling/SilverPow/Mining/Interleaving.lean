import SilverPow.Base.Component
import SilverPow.Base.Jams
import SilverPow.Base.LockOrder
import SilverPow.Mining.Concurrent

/-!
# Calls of a mining pool made at the same time

Calls that overlap act as calls one after another, so that a run of the pool is a sequence of
calls. But whether they return depends on what is called: a registration and a share that is
accepted can each hold the lock that the other one asks for, and then neither returns, nor
does any later call that needs one of these locks. No other calls keep each other waiting.
-/

namespace SilverPow.Mining

open SilverPow.Base SilverPow.Base.Executor SilverPow.Work MiningPool

variable {R : Type}

/-! ### The order of the calls -/

/-- A call that changes the pool keeps its locks until it returns. -/
theorem PoolCall.twoPhase_prog (config : PoolConfig) {call : PoolCall R} (h : call.Changes) :
    (call.prog config).TwoPhase [] := by
  cases call with
  | registerMiner minerId minerAddress now => simp [prog, registerMinerProg]
  | unregisterMiner minerId => simp [prog, unregisterMinerProg]
  | distributeWork work => simp [prog, distributeWorkProg]
  | submitShare share now => simp [prog, submitShareProg]
  | processPayout minerAddress amount =>
    rw [prog, processPayoutProg]
    split <;> simp
  | clearOldShares maxAgeSeconds now => simp [prog, clearOldSharesProg]
  | addPoolFee amount => simp [prog, addPoolFeeProg]
  | read | getStats | calculateMinerPayout | getPoolEfficiency | getDetailedStats => exact h.elim

/-- The other calls write nothing. -/
theorem PoolCall.silent_prog (config : PoolConfig) {call : PoolCall R} (h : ¬call.Changes) :
    (call.prog config).Silent := by
  cases call with
  | registerMiner | unregisterMiner | distributeWork | submitShare | processPayout
  | clearOldShares | addPoolFee => exact absurd trivial h
  | read l f => simp [prog, readProg]
  | getStats f => simp [prog, getStatsProg]
  | calculateMinerPayout minerId totalBlockReward f =>
    rw [prog, calculateMinerPayoutProg]
    split <;> simp
  | getPoolEfficiency f => simp [prog, getPoolEfficiencyProg]
  | getDetailedStats f => simp [prog, getDetailedStatsProg]

/-- The programs are those of the calls. -/
theorem implements_pool (config : PoolConfig) :
    Implements (fun s : FeePool ↦ s.config = config) FeePool.data (PoolCall.prog (R := R) config)
      FeePool.apply where
  exec s call hs := hs ▸ exec_prog s call
  keeps s call hs := (config_apply s call).trans hs
  whole call := by
    by_cases h : call.Changes
    · exact .inl (call.twoPhase_prog config h)
    · exact .inr (call.silent_prog config h)

/-- Calls of a pool that overlap, and have all returned, have changed it as the same calls one
after another, in an order that has every call that changes the pool and keeps the calls that
follow each other in order. -/
theorem callOrder_of_run {s : FeePool} {calls : List (PoolCall R)} {is : List Nat}
    {x : Executor PoolLock PoolData (Reply R)}
    (hr : Run Step (start s.data (calls.map (·.prog s.config))) is x) (hfin : x.Finished) :
    ∃ history s', CallOrder FeePool.data (PoolCall.prog s.config) FeePool.apply s calls is x
      history s' ∧ ∀ (i : Nat) call, calls[i]? = some call → call.Changes →
        i ∈ history.map Prod.fst := by
  obtain ⟨history, s', h⟩ := (implements_pool s.config).exists_callOrder rfl hr hfin
  exact ⟨history, s', h, fun i call hi hc ↦ h.all i call hi (call.twoPhase_prog s.config hc)⟩

/-! ### Which calls keep each other waiting -/

/-- A call that removes a miner, or adds one to a pool that takes any. -/
def PoolCall.Registers (config : PoolConfig) : PoolCall R → Prop
  | .registerMiner .. => 0 < config.maxMiners
  | .unregisterMiner .. => True
  | _ => False

/-- A share that the pool accepts. -/
def PoolCall.Accepted (config : PoolConfig) : PoolCall R → Prop
  | .submitShare share now =>
    config.minShareDifficulty ≤ share.difficulty ∧ now ≤ share.timestamp + 3600
  | _ => False

/-- The order of the locks without accepted shares. -/
def rankOfRegistrations : PoolLock → Nat
  | .miners => 1
  | .minerAccounts => 2
  | .stats => 3
  | .shares => 4
  | .currentWork => 5

/-- The order of the locks without registrations. -/
def rankOfShares : PoolLock → Nat
  | .miners => 1
  | .stats => 2
  | .minerAccounts => 3
  | .shares => 4
  | .currentWork => 5

/-- A call that is no accepted share. -/
theorem PoolCall.ordered_of_not_accepted {config : PoolConfig} {call : PoolCall R}
    (h : ¬call.Accepted config) : (call.prog config).Ordered rankOfRegistrations [] := by
  cases call with
  | registerMiner minerId minerAddress now => simp [prog, registerMinerProg, rankOfRegistrations]
  | unregisterMiner minerId => simp [prog, unregisterMinerProg, rankOfRegistrations]
  | distributeWork work => simp [prog, distributeWorkProg, rankOfRegistrations]
  | submitShare share now =>
    by_cases hlow : share.difficulty < config.minShareDifficulty
    · simp [prog, submitShareProg, rankOfRegistrations, hlow]
    · have hold : share.timestamp + 3600 < now :=
        BitVec.not_le.mp fun hnow ↦ h ⟨BitVec.not_lt.mp hlow, hnow⟩
      refine ⟨by simp [rankOfRegistrations], fun s ↦ ?_⟩
      dsimp only
      rw [if_neg hlow, if_pos hold]
      simp
  | processPayout minerAddress amount =>
    rw [prog, processPayoutProg]
    split <;> simp [rankOfRegistrations]
  | clearOldShares maxAgeSeconds now => simp [prog, clearOldSharesProg, rankOfRegistrations]
  | addPoolFee amount => simp [prog, addPoolFeeProg, rankOfRegistrations]
  | read l f => cases l <;> simp [prog, readProg, rankOfRegistrations]
  | getStats f => simp [prog, getStatsProg, rankOfRegistrations]
  | calculateMinerPayout minerId totalBlockReward f =>
    rw [prog, calculateMinerPayoutProg]
    split <;> simp [rankOfRegistrations]
  | getPoolEfficiency f => simp [prog, getPoolEfficiencyProg, rankOfRegistrations]
  | getDetailedStats f => simp [prog, getDetailedStatsProg, rankOfRegistrations]

/-- A call that is no registration. -/
theorem PoolCall.ordered_of_not_registers {config : PoolConfig} {call : PoolCall R}
    (h : ¬call.Registers config) : (call.prog config).Ordered rankOfShares [] := by
  cases call with
  | registerMiner minerId minerAddress now =>
    have hfull : config.maxMiners = 0 := Nat.eq_zero_of_not_pos h
    refine ⟨by simp [rankOfShares], fun miners ↦ ?_⟩
    dsimp only
    rw [if_pos (hfull ▸ Nat.zero_le _)]
    simp
  | unregisterMiner => exact absurd trivial h
  | distributeWork work => simp [prog, distributeWorkProg, rankOfShares]
  | submitShare share now => simp [prog, submitShareProg, rankOfShares]
  | processPayout minerAddress amount =>
    rw [prog, processPayoutProg]
    split <;> simp [rankOfShares]
  | clearOldShares maxAgeSeconds now => simp [prog, clearOldSharesProg, rankOfShares]
  | addPoolFee amount => simp [prog, addPoolFeeProg, rankOfShares]
  | read l f => cases l <;> simp [prog, readProg, rankOfShares]
  | getStats f => simp [prog, getStatsProg, rankOfShares]
  | calculateMinerPayout minerId totalBlockReward f =>
    rw [prog, calculateMinerPayoutProg]
    split <;> simp [rankOfShares]
  | getPoolEfficiency f => simp [prog, getPoolEfficiencyProg, rankOfShares]
  | getDetailedStats f => simp [prog, getDetailedStatsProg, rankOfShares]

/-- Work at difficulty one. -/
def easyWork : WorkPackage := ⟨[1], 0, 1, [], [], [], 0, 1, List.replicate 64 0xFF, 1, 0⟩

/-- A miner leaves while the pool distributes work and collects a fee. -/
def leavingWithFee : List (PoolCall Unit) :=
  [.unregisterMiner [1], .distributeWork easyWork, .addPoolFee 5]

/-- The initial pool with these calls. -/
theorem callOrder_of_run_leaving : ∃ is x history s',
    Run Step (start (FeePool.mk (.new .new) 0 none).data (leavingWithFee.map (·.prog .new))) is x ∧
    CallOrder FeePool.data (PoolCall.prog .new) FeePool.apply (FeePool.mk (.new .new) 0 none)
      leavingWithFee is x history s' := by
  have hall : AllReturn (start (FeePool.mk (.new .new) 0 none).data
      (leavingWithFee.map (·.prog .new))) := by
    refine allReturn_of_ordered rankOfRegistrations (fun p hp ↦ ?_) _
    obtain ⟨call, hc, rfl⟩ := List.mem_map.mp hp
    refine call.ordered_of_not_accepted ?_
    simp only [leavingWithFee, List.mem_cons, List.not_mem_nil, or_false] at hc
    obtain rfl | rfl | rfl := hc <;> exact id
  obtain ⟨is, x, hr, hend⟩ := exists_end (start (FeePool.mk (.new .new) 0 none).data
    (leavingWithFee.map (·.prog .new)))
  obtain ⟨history, s', h, -⟩ := callOrder_of_run (s := FeePool.mk (.new .new) 0 none) hr
    (hall.returned is x hr hend)
  exact ⟨is, x, history, s', hr, h⟩

/-- A registration in an empty pool comes to ask for the statistics. -/
theorem PoolCall.after_of_registers {config : PoolConfig} {call : PoolCall R}
    (h : call.Registers config) :
    ∃ data p, (call.prog config).after [] 6 (FeePool.mk (.new config) 0 none).data [] =
      (data, .lock .stats .write p, [(.minerAccounts, .write), (.miners, .write)]) := by
  cases call with
  | registerMiner minerId minerAddress now =>
    simp only [prog, registerMinerProg, Prog.after]
    have hempty : (FeePool.mk (.new config) 0 none).data .miners = ∅ := rfl
    have hroom : ¬config.maxMiners ≤ (∅ : Table Bytes Miner).entries.card := Nat.not_le.mpr h
    rw [hempty, if_neg hroom, if_neg (by simp)]
    exact ⟨_, _, rfl⟩
  | unregisterMiner minerId => exact ⟨_, _, rfl⟩
  | distributeWork | submitShare | processPayout | clearOldShares | addPoolFee | read | getStats
  | calculateMinerPayout | getPoolEfficiency | getDetailedStats => exact h.elim

/-- An accepted share comes to ask for the accounts. -/
theorem PoolCall.after_of_accepted {config : PoolConfig} {call : PoolCall R}
    (h : call.Accepted config) (data : ∀ l, PoolData l) :
    ∃ data' p, (call.prog config).after [(.minerAccounts, .write), (.miners, .write)] 3 data [] =
      (data', .lock .minerAccounts .write p, [(.stats, .write)]) := by
  cases call with
  | submitShare share now =>
    simp only [prog, submitShareProg, Prog.after]
    rw [if_neg (BitVec.not_lt.mpr h.1), if_neg (BitVec.not_lt.mpr h.2)]
    exact ⟨_, _, rfl⟩
  | registerMiner | unregisterMiner | distributeWork | processPayout | clearOldShares | addPoolFee
  | read | getStats | calculateMinerPayout | getPoolEfficiency | getDetailedStats => exact h.elim

/-- Calls of a pool always return exactly if none of them is an accepted share or none adds or
removes a miner. -/
theorem allReturn_iff (config : PoolConfig) (calls : List (PoolCall R)) :
    (∀ s : FeePool, s.config = config →
      AllReturn (start s.data (calls.map (·.prog config)))) ↔
    (∀ call ∈ calls, ¬call.Accepted config) ∨ ∀ call ∈ calls, ¬call.Registers config := by
  constructor
  · intro hall
    by_contra hno
    push Not at hno
    obtain ⟨⟨c, hc, haccepted⟩, d, hd, hregisters⟩ := hno
    obtain ⟨i, hi⟩ := List.getElem?_of_mem hd
    obtain ⟨j, hj⟩ := List.getElem?_of_mem hc
    have hij : i ≠ j := by
      rintro rfl
      cases hi.symm.trans hj
      cases c <;> first | exact haccepted.elim | exact hregisters.elim
    obtain ⟨data₁, p', hp⟩ := PoolCall.after_of_registers hregisters
    obtain ⟨data₂, q', hq⟩ := PoolCall.after_of_accepted haccepted data₁
    exact not_allReturn_of_cross hij (getElem?_progs hi (·.prog config))
      (getElem?_progs hj (·.prog config)) hp hq (by simp) (by simp) (hall _ rfl)
  · rintro (h | h) s rfl
    · refine allReturn_of_ordered rankOfRegistrations (fun p hp ↦ ?_) _
      obtain ⟨call, hc, rfl⟩ := List.mem_map.mp hp
      exact call.ordered_of_not_accepted (h call hc)
    · refine allReturn_of_ordered rankOfShares (fun p hp ↦ ?_) _
      obtain ⟨call, hc, rfl⟩ := List.mem_map.mp hp
      exact call.ordered_of_not_registers (h call hc)

/-- A miner leaves and a share is accepted, while the statistics are read. -/
def leavingWithShare : List (PoolCall U64) :=
  [.unregisterMiner [1], .submitShare (shareOf 1 1000) 0, .getStats fun s _ ↦ s.totalShares]

/-- These calls do not always return. -/
theorem allReturn_iff_leaving : ¬∀ s : FeePool, s.config = .new →
    AllReturn (start s.data (leavingWithShare.map (·.prog .new))) := by
  intro h
  obtain h | h := (allReturn_iff .new _).mp h
  · exact h (.submitShare (shareOf 1 1000) 0) (by simp [leavingWithShare]) ⟨by decide, by decide⟩
  · exact h (.unregisterMiner [1]) (by simp [leavingWithShare]) trivial

end SilverPow.Mining
