import SilverPow.Base.Component
import SilverPow.Base.LockOrder
import SilverPow.Consensus.Soundness
import SilverPow.Mining.Pool

/-!
# Overlapping calls of the consensus engine

The calls of `src/consensus.rs:88–279` as programs over the locks of the engine. They take the
locks in one order and keep them, so that they always return and act as calls one after
another: of the miners who race for the next block of a chain exactly one wins.
-/

namespace SilverPow.Consensus

open SilverPow.Base SilverPow.Base.Executor SilverPow.Work PoWConsensus

/-- The locks of a `PoWConsensus`, `src/consensus.rs:46–55`. -/
inductive EngineLock where
  | chainStates
  | miners
  | blockHistory
  deriving DecidableEq

/-- What the locks guard. -/
abbrev EngineData : EngineLock → Type
  | .chainStates => Table U32 ChainState
  | .miners => Table U32 Mining.Miner
  | .blockHistory => List BlockRecord

/-- The engine with the miners of its chains, which no other call reads. -/
structure MinerEngine extends PoWConsensus where
  miners : Table U32 Mining.Miner

/-- The engine as its locks see it. -/
def MinerEngine.data (s : MinerEngine) : ∀ l, EngineData l
  | .chainStates => s.chainStates
  | .miners => s.miners
  | .blockHistory => s.blockHistory

/-- What a call returns; `R` are the results of the reading calls. -/
inductive EngineReply (R : Type) where
  | initialized (result : Except PoWError Unit)
  | submitted (result : Except PoWError Bool)
  | value (r : R)

/-- A call of the engine as a program. -/
abbrev EngineProg (R : Type) : Type := Prog EngineLock EngineData (EngineReply R)

variable {R : Type}

/-! ### The programs -/

/-- `initialize_chain`, `src/consensus.rs:88–111`. -/
def initializeChainProg (chainId : U32) (now : U64) : EngineProg R :=
  if 20 ≤ chainId then .ret (.initialized (.error (.invalidBlock "Invalid chain ID")))
  else
    .lock .chainStates .write <| .get .chainStates fun states ↦
      if (states.lookup chainId).isSome then
        .ret (.initialized (.error (.invalidBlock "Chain already initialized")))
      else
        .set .chainStates (states.insert chainId (.new chainId now)) <|
        .lock .miners .write <| .get .miners fun miners ↦
        .set .miners (miners.insert chainId ⟨4⟩) <|
        .ret (.initialized (.ok ()))

/-- `submit_block`, `src/consensus.rs:158–232`. -/
def submitBlockProg (scale : ScaleDifficulty) (config : PoWConfig) (proof : WorkProof)
    (now : U64) : EngineProg R :=
  .lock .chainStates .write <| .get .chainStates fun states ↦
    match states.lookup proof.chainId with
    | none => .ret (.submitted (.error (.invalidBlock "Chain not found")))
    | some state =>
      let expected := state.currentHeight + 1
      if proof.blockHeight ≠ expected then
        .ret (.submitted (.error (.invalidBlock s!"Invalid block height: expected {
          expected.toNat}, got {proof.blockHeight.toNat}")))
      else match WorkPackage.calculateTargetFromDifficulty state.currentDifficulty with
      | .error e => .ret (.submitted (.error e))
      | .ok target =>
        if sliceLe proof.hashResult target = false then
          .ret (.submitted (.error .workProofVerificationFailed))
        else
          let state := state.extend proof now
          match state.retarget scale config now with
          | .error e =>
            .set .chainStates (states.insert proof.chainId state) <| .ret (.submitted (.error e))
          | .ok state =>
            .set .chainStates (states.insert proof.chainId state) <|
            .lock .blockHistory .write <| .get .blockHistory fun history ↦
            .set .blockHistory (history ++ [⟨proof.chainId, proof.blockHeight, proof.hashResult,
              now, state.currentDifficulty, proof.minerAddress, proof.nonce⟩]) <|
            .ret (.submitted (.ok true))

/-- A call that reads what one lock guards: `get_chain_state`, `create_work_package`,
`get_block_history` and `get_miner`, `src/consensus.rs:114–277`. -/
def readProg (l : EngineLock) (f : EngineData l → R) : EngineProg R :=
  .lock l .read <| .get l fun d ↦ .ret (.value (f d))

/-- `get_stats`, `src/consensus.rs:252–272`. -/
def getStatsProg (f : Table U32 ChainState → List BlockRecord → R) : EngineProg R :=
  .lock .chainStates .read <| .lock .blockHistory .read <|
  .get .blockHistory fun history ↦ .get .chainStates fun states ↦ .ret (.value (f states history))

/-- The calls of the engine. -/
inductive EngineCall (R : Type) where
  | initializeChain (chainId : U32) (now : U64)
  | submitBlock (proof : WorkProof) (now : U64)
  | read (l : EngineLock) (f : EngineData l → R)
  | getStats (f : Table U32 ChainState → List BlockRecord → R)

/-- The program of a call. -/
def EngineCall.prog (scale : ScaleDifficulty) (config : PoWConfig) : EngineCall R → EngineProg R
  | .initializeChain chainId now => initializeChainProg chainId now
  | .submitBlock proof now => submitBlockProg scale config proof now
  | .read l f => readProg l f
  | .getStats f => getStatsProg f

/-- The miner of a chain that is initialized. -/
def MinerEngine.initializeChain (s : MinerEngine) (chainId : U32) (now : U64) :
    Except PoWError Unit × MinerEngine :=
  match s.toPoWConsensus.initializeChain chainId now with
  | (.ok (), engine) => (.ok (), ⟨engine, s.miners.insert chainId ⟨4⟩⟩)
  | (.error e, engine) => (.error e, ⟨engine, s.miners⟩)

/-- A call that runs alone: what it returns, and the engine after it. -/
def MinerEngine.apply (scale : ScaleDifficulty) (s : MinerEngine) :
    EngineCall R → EngineReply R × MinerEngine
  | .initializeChain chainId now =>
    (.initialized (s.initializeChain chainId now).1, (s.initializeChain chainId now).2)
  | .submitBlock proof now =>
    (.submitted (s.submitBlock scale proof now).1, ⟨(s.submitBlock scale proof now).2, s.miners⟩)
  | .read l f => (.value (f (s.data l)), s)
  | .getStats f => (.value (f s.chainStates s.blockHistory), s)

/-! ### What the programs do alone -/

/-- The engine as its locks see it, after some of what they guard is written. -/
theorem MinerEngine.data_ext {s : MinerEngine} {data : ∀ l, EngineData l}
    (hs : data .chainStates = s.chainStates) (hm : data .miners = s.miners)
    (hh : data .blockHistory = s.blockHistory) : data = s.data := by
  funext l
  cases l with
  | chainStates => exact hs
  | miners => exact hm
  | blockHistory => exact hh

/-- Alone, each program does what the call does to the engine. -/
theorem exec_engineProg (scale : ScaleDifficulty) (s : MinerEngine) (call : EngineCall R) :
    (call.prog scale s.config).exec s.data =
      ((s.apply scale call).1, (s.apply scale call).2.data) := by
  cases call with
  | initializeChain chainId now =>
    simp only [EngineCall.prog, initializeChainProg, MinerEngine.apply,
      MinerEngine.initializeChain, PoWConsensus.initializeChain]
    by_cases hc : 20 ≤ chainId
    · rw [if_pos hc, if_pos hc]
      rfl
    · rw [if_neg hc, if_neg hc]
      change Prog.exec (if (s.chainStates.lookup chainId).isSome then _ else _) _ = _
      by_cases hk : (s.chainStates.lookup chainId).isSome
      · rw [if_pos hk, if_pos hk]
        rfl
      · rw [if_neg hk, if_neg hk]
        exact Prod.ext rfl (MinerEngine.data_ext rfl rfl rfl)
  | submitBlock proof now =>
    have hstates : s.data .chainStates = s.chainStates := rfl
    simp only [EngineCall.prog, submitBlockProg, Prog.exec, MinerEngine.apply,
      PoWConsensus.submitBlock, hstates]
    cases s.chainStates.lookup proof.chainId with
    | none => rfl
    | some state =>
      dsimp only
      by_cases hh : proof.blockHeight ≠ state.currentHeight + 1
      · rw [if_pos hh, if_pos hh]
        rfl
      · rw [if_neg hh, if_neg hh]
        cases WorkPackage.calculateTargetFromDifficulty state.currentDifficulty with
        | error e => rfl
        | ok target =>
          dsimp only
          by_cases hw : sliceLe proof.hashResult target = false
          · rw [if_pos hw, if_pos hw]
            rfl
          · rw [if_neg hw, if_neg hw]
            cases (state.extend proof now).retarget scale s.config now with
            | error e => exact Prod.ext rfl (MinerEngine.data_ext rfl rfl rfl)
            | ok state' => exact Prod.ext rfl (MinerEngine.data_ext rfl rfl rfl)
  | read l f => rfl
  | getStats f => rfl

/-- No call changes the parameters of the engine. -/
theorem config_apply (scale : ScaleDifficulty) (s : MinerEngine) (call : EngineCall R) :
    (s.apply scale call).2.config = s.config := by
  cases call with
  | initializeChain chainId now =>
    simp only [MinerEngine.apply, MinerEngine.initializeChain]
    obtain ⟨e, h⟩ | ⟨-, h⟩ := initializeChain_cases s.toPoWConsensus chainId now
    · rw [h]
    · rw [h]
      rfl
  | submitBlock proof now =>
    obtain ⟨-, e, h⟩ | ⟨state, state', -, -, -, h⟩ :=
      submitBlock_cases scale s.toPoWConsensus proof now
    · simp only [MinerEngine.apply, h]
    · simp only [MinerEngine.apply, h]
      rfl
  | read l f => rfl
  | getStats f => rfl

section Programs

variable (scale : ScaleDifficulty) (config : PoWConfig)

/-- Each call keeps its locks until it returns. -/
theorem twoPhase_engineProg (call : EngineCall R) : (call.prog scale config).TwoPhase [] := by
  cases call with
  | initializeChain chainId now => simp [EngineCall.prog, initializeChainProg]
  | submitBlock proof now =>
    refine ⟨by simp, fun states ↦ ?_⟩
    dsimp only
    repeat' split
    all_goals simp
  | read l f => simp [EngineCall.prog, readProg]
  | getStats f => simp [EngineCall.prog, getStatsProg]

/-- The order in which all calls take the locks. -/
def rankOfEngine : EngineLock → Nat
  | .chainStates => 1
  | .miners => 2
  | .blockHistory => 3

/-- Each call takes the locks in this order. -/
theorem ordered_engineProg (call : EngineCall R) :
    (call.prog scale config).Ordered rankOfEngine [] := by
  cases call with
  | initializeChain chainId now => simp [EngineCall.prog, initializeChainProg, rankOfEngine]
  | submitBlock proof now =>
    refine ⟨by simp [rankOfEngine], fun states ↦ ?_⟩
    dsimp only
    repeat' split
    all_goals simp [rankOfEngine]
  | read l f => cases l <;> simp [EngineCall.prog, readProg, rankOfEngine]
  | getStats f => simp [EngineCall.prog, getStatsProg, rankOfEngine]

/-- The programs are those of the calls. -/
theorem implements_engine :
    Implements (fun s : MinerEngine ↦ s.config = config) MinerEngine.data
      (EngineCall.prog (R := R) scale config) (MinerEngine.apply scale) where
  exec s call hs := hs ▸ exec_engineProg scale s call
  keeps s call hs := (config_apply scale s call).trans hs
  whole call := .inl (twoPhase_engineProg scale config call)

end Programs

/-! ### A race for a block -/

/-- The call submits a proof for the next block of a chain. -/
def EngineCall.Races (chainId : U32) (state : ChainState) : EngineCall R → Prop
  | .submitBlock proof _ =>
    proof.chainId = chainId ∧ proof.blockHeight = state.currentHeight + 1
  | _ => False

/-- The call submits a proof that the chain state accepts. -/
def EngineCall.Wins (chainId : U32) (state : ChainState) : EngineCall R → Prop
  | .submitBlock proof _ => proof.chainId = chainId ∧ Accepts state proof
  | _ => False

/-- Of the calls so far, none has extended the chain, or exactly one with the next block. -/
def WonBy (calls : List (EngineCall R)) (chainId : U32) (state : ChainState)
    (history : List (Nat × EngineReply R)) (s : MinerEngine) : Prop :=
  (s.chainStates.lookup chainId = some state ∧
    ∀ i a call, (i, a) ∈ history → calls[i]? = some call →
      ¬call.Wins chainId state ∧ (call.Races chainId state → a ≠ .submitted (.ok true))) ∨
  ∃ state' n, s.chainStates.lookup chainId = some state' ∧ 0 < n ∧ n ≤ history.length ∧
    state'.currentHeight = state.currentHeight + BitVec.ofNat 64 n ∧
    ∃ i call, calls[i]? = some call ∧ call.Races chainId state ∧
      (i, .submitted (.ok true)) ∈ history ∧
      ∀ j call, (j, .submitted (.ok true)) ∈ history → calls[j]? = some call →
        call.Races chainId state → j = i

section Races

variable {calls : List (EngineCall R)} {chainId : U32} {state : ChainState}
  {history : List (Nat × EngineReply R)} {s s' : MinerEngine} {i : Nat} {a : EngineReply R}
  {call : EngineCall R}

/-- A call that leaves the chain and does not win. -/
theorem WonBy.leave (h : WonBy calls chainId state history s) (hi : calls[i]? = some call)
    (hs : s'.chainStates.lookup chainId = s.chainStates.lookup chainId)
    (hwins : s.chainStates.lookup chainId = some state → ¬call.Wins chainId state)
    (hraces : call.Races chainId state → a ≠ .submitted (.ok true)) :
    WonBy calls chainId state (history ++ [(i, a)]) s' := by
  obtain ⟨hl, hnone⟩ | ⟨state', n, hl, hpos, hn, hheight, k, winner, hk, hw, hok, hone⟩ := h
  · refine .inl ⟨hs.trans hl, fun j b c hj hc ↦ ?_⟩
    obtain hj | hj := List.mem_append.mp hj
    · exact hnone j b c hj hc
    · cases List.mem_singleton.mp hj
      cases hi.symm.trans hc
      exact ⟨hwins hl, hraces⟩
  · refine .inr ⟨state', n, hs.trans hl, hpos, ?_, hheight, k, winner, hk, hw,
      List.mem_append_left _ hok, fun j c hj hc hr ↦ ?_⟩
    · rw [List.length_append]
      omega
    · obtain hj | hj := List.mem_append.mp hj
      · exact hone j c hj hc hr
      · cases List.mem_singleton.mp hj
        cases hi.symm.trans hc
        exact absurd rfl (hraces hr)

/-- A block that extends the chain is the next one at most once, as long as the heights do not
wrap. -/
theorem WonBy.extend (h : WonBy calls chainId state history s) {proof : WorkProof} {now : U64}
    (hi : calls[i]? = some (.submitBlock proof now)) (hc : proof.chainId = chainId)
    {before after : ChainState} (hl : s.chainStates.lookup chainId = some before)
    (ha : Accepts before proof) (hl' : s'.chainStates.lookup chainId = some after)
    (hheight : after.currentHeight = before.currentHeight + 1) (hlen : history.length < 2 ^ 64) :
    WonBy calls chainId state (history ++ [(i, .submitted (.ok true))]) s' := by
  obtain ⟨hs, hnone⟩ | ⟨state', n, hs, hpos, hn, hheight', k, winner, hk, hw, hok, hone⟩ := h
  · cases hs.symm.trans hl
    refine .inr ⟨after, 1, hl', Nat.one_pos, by simp, hheight, i, _, hi, ⟨hc, ha.1⟩, by simp,
      fun j c hj hcj hr ↦ ?_⟩
    obtain hj | hj := List.mem_append.mp hj
    · exact absurd rfl ((hnone j _ c hj hcj).2 hr)
    · cases List.mem_singleton.mp hj
      rfl
  · cases hs.symm.trans hl
    refine .inr ⟨after, n + 1, hl', Nat.succ_pos n, by simpa using hn, ?_, k, winner, hk, hw,
      List.mem_append_left _ hok, fun j c hj hcj hr ↦ ?_⟩
    · rw [hheight, hheight', BitVec.ofNat_add, BitVec.add_assoc]
      rfl
    · obtain hj | hj := List.mem_append.mp hj
      · exact hone j c hj hcj hr
      · cases List.mem_singleton.mp hj
        cases hi.symm.trans hcj
        -- The height would have come round to the next block of the state.
        have hwrap := ha.1.symm.trans hr.2
        rw [hheight'] at hwrap
        have hzero : (BitVec.ofNat 64 n).toNat = 0 := by bv_omega
        rw [BitVec.toNat_ofNat, Nat.mod_eq_of_lt (by omega)] at hzero
        omega

/-- The chain is there. -/
theorem WonBy.exists_lookup (h : WonBy calls chainId state history s) :
    ∃ state', s.chainStates.lookup chainId = some state' := by
  obtain ⟨hl, -⟩ | ⟨state', -, hl, -⟩ := h
  · exact ⟨_, hl⟩
  · exact ⟨_, hl⟩

/-- One more call. -/
theorem WonBy.step (h : WonBy calls chainId state history s) (scale : ScaleDifficulty)
    (hi : calls[i]? = some call) (hlen : history.length < 2 ^ 64) :
    WonBy calls chainId state (history ++ [(i, (s.apply scale call).1)])
      (s.apply scale call).2 := by
  cases call with
  | initializeChain c now =>
    refine h.leave hi ?_ (fun _ ↦ id) fun hr ↦ hr.elim
    obtain ⟨state', hl⟩ := h.exists_lookup
    simp only [MinerEngine.apply, MinerEngine.initializeChain]
    obtain ⟨e, hs⟩ | ⟨hfree, hs⟩ := initializeChain_cases s.toPoWConsensus c now
    · rw [hs]
    · rw [hs]
      refine Finmap.lookup_insert_of_ne _ ?_
      rintro rfl
      cases hl.symm.trans hfree
  | submitBlock proof now =>
    simp only [MinerEngine.apply]
    obtain ⟨hno, e, hs⟩ | ⟨before, after, hl, ha, hretarget, hs⟩ :=
      submitBlock_cases scale s.toPoWConsensus proof now
    · rw [hs]
      refine h.leave hi rfl ?_ fun _ ↦ by rintro ⟨⟩
      rintro hl ⟨rfl, ha⟩
      exact hno state hl ha
    · rw [hs]
      by_cases hc : proof.chainId = chainId
      · obtain ⟨after', hretarget', hheight, -⟩ :=
          (before.extend proof now).retarget_ok scale s.config now
        cases hretarget.symm.trans hretarget'
        subst hc
        exact h.extend hi rfl hl ha (Finmap.lookup_insert _) hheight hlen
      · exact h.leave hi (Finmap.lookup_insert_of_ne _ (Ne.symm hc)) (fun _ hw ↦ hc hw.1)
          fun hr ↦ absurd hr.1 hc
  | read l f => exact h.leave hi rfl (fun _ ↦ id) fun hr ↦ hr.elim
  | getStats f => exact h.leave hi rfl (fun _ ↦ id) fun hr ↦ hr.elim

end Races

/-- Overlapping calls of the engine always return. -/
theorem engine_allReturn (scale : ScaleDifficulty) (s : MinerEngine)
    (calls : List (EngineCall R)) :
    AllReturn (start s.data (calls.map (·.prog scale s.config))) := by
  refine allReturn_of_ordered rankOfEngine (fun p hp ↦ ?_) _
  obtain ⟨call, -, rfl⟩ := List.mem_map.mp hp
  exact ordered_engineProg scale s.config call

/-- When one of the overlapping calls submits a proof that a chain would accept, exactly one of
the proofs submitted for its next block is accepted. -/
theorem exists_winner {scale : ScaleDifficulty} {s : MinerEngine} {calls : List (EngineCall R)}
    {chainId : U32} {state : ChainState} (hl : s.chainStates.lookup chainId = some state)
    (hwins : ∃ call ∈ calls, call.Wins chainId state) (hlen : calls.length < 2 ^ 64)
    {is : List Nat} {x : Executor EngineLock EngineData (EngineReply R)}
    (hr : Run Step (start s.data (calls.map (·.prog scale s.config))) is x) (hfin : x.Finished) :
    ∃! i : Nat, (∃ call, calls[i]? = some call ∧ call.Races chainId state) ∧
      ∃ t, x.tasks[i]? = some t ∧ t.prog = .ret (.submitted (.ok true)) := by
  obtain ⟨history, s', h⟩ := (implements_engine scale s.config).exists_callOrder rfl hr hfin
  have hwon : WonBy calls chainId state history s' := by
    suffices hs : history.length < 2 ^ 64 → WonBy calls chainId state history s' from
      hs (h.length_le.trans_lt hlen)
    refine h.run.historyInvariant
      (fun history s ↦ history.length < 2 ^ 64 → WonBy calls chainId state history s)
      (fun _ ↦ .inl ⟨hl, fun _ _ _ hi ↦ (nomatch hi)⟩) ?_
    rintro history t ⟨i, a⟩ t' ht ⟨call, hi, happly⟩ hlt
    rw [List.length_append] at hlt
    have hstep := (ht (by omega)).step scale hi (by omega)
    rwa [happly] at hstep
  obtain ⟨-, hnone⟩ | ⟨-, -, -, -, -, -, i, winner, hi, hw, hok, hone⟩ := hwon
  · obtain ⟨call, hc, hw⟩ := hwins
    obtain ⟨i, hi⟩ := List.getElem?_of_mem hc
    obtain ⟨⟨_, a⟩, ha, rfl⟩ := List.mem_map.mp
      (h.all i call hi (twoPhase_engineProg scale s.config call))
    exact absurd hw (hnone _ a call ha hi).1
  · refine ⟨i, ⟨⟨winner, hi, hw⟩, h.results i _ hok⟩, ?_⟩
    rintro j ⟨⟨call, hj, hr⟩, t, ht, hret⟩
    exact hone j call (h.mem_of_ret hj (twoPhase_engineProg scale s.config call) ht hret) hj hr

/-- Overlapping calls of the engine always return, and when one of them submits a proof that a
chain would accept, exactly one of the proofs submitted for its next block is accepted. -/
theorem one_winner (scale : ScaleDifficulty) (s : MinerEngine) (calls : List (EngineCall R)) :
    AllReturn (start s.data (calls.map (·.prog scale s.config))) ∧
    ∀ chainId state, s.chainStates.lookup chainId = some state →
      (∃ call ∈ calls, call.Wins chainId state) → calls.length < 2 ^ 64 →
      ∀ is x, Run Step (start s.data (calls.map (·.prog scale s.config))) is x → x.Finished →
        ∃! i : Nat, (∃ call, calls[i]? = some call ∧ call.Races chainId state) ∧
          ∃ t, x.tasks[i]? = some t ∧ t.prog = .ret (.submitted (.ok true)) :=
  ⟨engine_allReturn scale s calls,
    fun _ _ hl hwins hlen _ _ hr hfin ↦ exists_winner hl hwins hlen hr hfin⟩

/-- Two miners submit a proof for the first block of a chain, while the blocks are counted. -/
def firstBlockRace : List (EngineCall Nat) :=
  [.submitBlock (emptyProof 0 1) 40, .submitBlock (emptyProof 0 1) 41,
    .read .blockHistory (·.length)]

/-- One of them wins. -/
theorem one_winner_first :
    ∀ is x, Run Step (start (MinerEngine.mk (withChain .default) ∅).data
        (firstBlockRace.map (·.prog exactScale .default))) is x → x.Finished →
      ∃! i : Nat, (∃ call, firstBlockRace[i]? = some call ∧ call.Races 0 (.new 0 10)) ∧
        ∃ t, x.tasks[i]? = some t ∧ t.prog = .ret (.submitted (.ok true)) :=
  (one_winner exactScale ⟨withChain .default, ∅⟩ firstBlockRace).2 0 (.new 0 10)
    (Finmap.lookup_insert _) ⟨.submitBlock (emptyProof 0 1) 40, List.mem_cons_self, rfl,
      accepts_empty_hash (by decide) rfl rfl⟩ (by decide)

end SilverPow.Consensus
