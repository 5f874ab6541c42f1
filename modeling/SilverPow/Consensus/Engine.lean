import SilverPow.Base.Run
import SilverPow.Base.Table
import SilverPow.Work.Package

/-!
# The consensus engine

`src/consensus.rs`, with the retargeting of `src/difficulty.rs`. A call holds the lock of
the chain states until it returns, so a run is a sequence of calls, each with the clock
reading that it took and the result that it returned. Arithmetic is that of a release
build. The mining pool and the miners, which no call reads, are left out.
-/

namespace SilverPow.Consensus

open SilverPow.Base SilverPow.Work

/-- `ChainState`, `src/consensus.rs:16–24`. -/
structure ChainState where
  chainId : U32
  currentHeight : U64
  currentDifficulty : U64
  lastBlockTime : U64
  totalWork : U128
  blocksInPeriod : U64
  periodStartTime : U64

/-- `ChainState::new`, `src/consensus.rs:27–42`. -/
def ChainState.new (chainId : U32) (now : U64) : ChainState where
  chainId
  currentHeight := 0
  currentDifficulty := 1_000_000
  lastBlockTime := now
  totalWork := 0
  blocksInPeriod := 0
  periodStartTime := now

/-- `BlockRecord`, `src/consensus.rs:58–66`. -/
structure BlockRecord where
  chainId : U32
  height : U64
  hash : Bytes
  timestamp : U64
  difficulty : U64
  minerAddress : Bytes
  nonce : U64

/-- `(current_difficulty as f64 * clamped_ratio) as u64`, `src/difficulty.rs:109–116`, as a
function of the current difficulty, the expected time and the time of the period. -/
abbrev ScaleDifficulty := U64 → U64 → U64 → U64

/-- `adjust_difficulty_kadena_style`, `src/difficulty.rs:90–129`. -/
def adjustDifficultyKadenaStyle (scale : ScaleDifficulty) (config : PoWConfig)
    (currentDifficulty blocksInPeriod timeForPeriodMs : U64) : Except PoWError U64 :=
  if blocksInPeriod = 0 then .ok currentDifficulty
  else
    let expectedTimeMs := blocksInPeriod * config.targetBlockTimeMs
    if timeForPeriodMs = 0 then .ok currentDifficulty
    else
      let newDifficulty := scale currentDifficulty expectedTimeMs timeForPeriodMs
      .ok (Word.smaller (Word.larger newDifficulty config.minDifficulty) config.maxDifficulty)

/-- `PoWConsensus`, `src/consensus.rs:46–55`. -/
structure PoWConsensus where
  config : PoWConfig
  chainStates : Table U32 ChainState
  blockHistory : List BlockRecord

/-- The update of the chain state by an accepted block, `src/consensus.rs:185–189`. -/
def ChainState.extend (state : ChainState) (proof : WorkProof) (now : U64) : ChainState :=
  { state with
    currentHeight := state.currentHeight + 1
    lastBlockTime := now
    blocksInPeriod := state.blocksInPeriod + 1
    totalWork := state.totalWork + proof.difficultyAchieved.setWidth 128 }

@[simp] theorem ChainState.extend_currentHeight (state : ChainState) (proof : WorkProof)
    (now : U64) : (state.extend proof now).currentHeight = state.currentHeight + 1 := rfl

@[simp] theorem ChainState.extend_totalWork (state : ChainState) (proof : WorkProof)
    (now : U64) : (state.extend proof now).totalWork =
      state.totalWork + proof.difficultyAchieved.setWidth 128 := rfl

@[simp] theorem ChainState.extend_blocksInPeriod (state : ChainState) (proof : WorkProof)
    (now : U64) : (state.extend proof now).blocksInPeriod = state.blocksInPeriod + 1 := rfl

/-- The retargeting at the end of a period, `src/consensus.rs:191–212`. -/
def ChainState.retarget (scale : ScaleDifficulty) (config : PoWConfig) (state : ChainState)
    (now : U64) : Except PoWError ChainState :=
  let periodElapsed := now - state.periodStartTime
  if config.difficultyAdjustmentInterval ≤ state.blocksInPeriod then do
    let newDifficulty ← adjustDifficultyKadenaStyle scale config state.currentDifficulty
      state.blocksInPeriod (periodElapsed * 1000)
    return { state with
      currentDifficulty := newDifficulty, blocksInPeriod := 0, periodStartTime := now }
  else .ok state

namespace PoWConsensus

/-- `PoWConsensus::new`, `src/consensus.rs:69–85`. -/
def new (config : PoWConfig) : PoWConsensus := ⟨config, ∅, []⟩

/-- `initialize_chain`, `src/consensus.rs:88–111`. -/
def initializeChain (s : PoWConsensus) (chainId : U32) (now : U64) :
    Except PoWError Unit × PoWConsensus :=
  if 20 ≤ chainId then (.error (.invalidBlock "Invalid chain ID"), s)
  else if (s.chainStates.lookup chainId).isSome then
    (.error (.invalidBlock "Chain already initialized"), s)
  else (.ok (), { s with chainStates := s.chainStates.insert chainId (.new chainId now) })

/-- Store a chain state. -/
def store (s : PoWConsensus) (chainId : U32) (state : ChainState) : PoWConsensus :=
  { s with chainStates := s.chainStates.insert chainId state }

/-- Append the record of an accepted proof to the history, `src/consensus.rs:214–224`. -/
def record (s : PoWConsensus) (state : ChainState) (proof : WorkProof) (now : U64) :
    PoWConsensus :=
  { s with
    blockHistory := s.blockHistory ++ [⟨proof.chainId, proof.blockHeight, proof.hashResult, now,
      state.currentDifficulty, proof.minerAddress, proof.nonce⟩] }

/-- `submit_block`, `src/consensus.rs:158–232`. An error of the retargeting would leave the
extended state without a record. -/
def submitBlock (scale : ScaleDifficulty) (s : PoWConsensus) (proof : WorkProof) (now : U64) :
    Except PoWError Bool × PoWConsensus :=
  match s.chainStates.lookup proof.chainId with
  | none => (.error (.invalidBlock "Chain not found"), s)
  | some state =>
    let expected := state.currentHeight + 1
    if proof.blockHeight ≠ expected then
      (.error (.invalidBlock
        s!"Invalid block height: expected {expected.toNat}, got {proof.blockHeight.toNat}"), s)
    else match WorkPackage.calculateTargetFromDifficulty state.currentDifficulty with
    | .error e => (.error e, s)
    | .ok target =>
      if sliceLe proof.hashResult target = false then (.error .workProofVerificationFailed, s)
      else
        let state := state.extend proof now
        match state.retarget scale s.config now with
        | .error e => (.error e, s.store proof.chainId state)
        | .ok state => (.ok true, (s.store proof.chainId state).record state proof now)

/-- `get_block_history`, `src/consensus.rs:235–244`. -/
def getBlockHistory (s : PoWConsensus) (chainId : U32) (limit : Nat) : List BlockRecord :=
  (s.blockHistory.filter (·.chainId == chainId)).reverse.take limit

/-- The calls that change the engine. -/
inductive Call where
  | initializeChain (chainId : U32)
  | submitBlock (proof : WorkProof)

/-- The chain that a call is for. -/
def Call.chainId : Call → U32
  | .initializeChain chainId => chainId
  | .submitBlock proof => proof.chainId

/-- One call, with its result. Initialising a chain returns no value, read as `true`. -/
def perform (scale : ScaleDifficulty) (s : PoWConsensus) (call : Call) (now : U64) :
    Except PoWError Bool × PoWConsensus :=
  match call with
  | .initializeChain chainId =>
    let (result, s) := s.initializeChain chainId now
    (result.map fun _ ↦ true, s)
  | .submitBlock proof => s.submitBlock scale proof now

/-- A call with the clock reading that it takes and the result that it returns. -/
structure Event where
  call : Call
  now : U64
  result : Except PoWError Bool

/-- Runs of the engine: any calls in any order, while the history fits a vector. -/
abbrev ConsensusRun (scale : ScaleDifficulty) : PoWConsensus → List Event → PoWConsensus → Prop :=
  Run fun s e s' ↦ s.perform scale e.call e.now = (e.result, s') ∧
    s'.blockHistory.length ≤ maxCapacity

end PoWConsensus

/-! ### What one call does -/

/-- Retargeting never fails. -/
theorem adjustDifficultyKadenaStyle_ok (scale : ScaleDifficulty) (config : PoWConfig)
    (currentDifficulty blocksInPeriod timeForPeriodMs : U64) :
    ∃ d, adjustDifficultyKadenaStyle scale config currentDifficulty blocksInPeriod
      timeForPeriodMs = .ok d := by
  unfold adjustDifficultyKadenaStyle
  split
  · exact ⟨_, rfl⟩
  · split <;> exact ⟨_, rfl⟩

/-- What the retargeting leaves of a chain state: height and work, and the number of blocks
in the period, which starts again when the period is full. -/
theorem ChainState.retarget_ok (scale : ScaleDifficulty) (config : PoWConfig)
    (state : ChainState) (now : U64) :
    ∃ state', state.retarget scale config now = .ok state' ∧
      state'.currentHeight = state.currentHeight ∧ state'.totalWork = state.totalWork ∧
      state'.blocksInPeriod =
        if config.difficultyAdjustmentInterval ≤ state.blocksInPeriod then 0
        else state.blocksInPeriod := by
  unfold retarget
  by_cases hp : config.difficultyAdjustmentInterval ≤ state.blocksInPeriod
  · obtain ⟨d, hd⟩ := adjustDifficultyKadenaStyle_ok scale config state.currentDifficulty
      state.blocksInPeriod ((now - state.periodStartTime) * 1000)
    refine ⟨{ state with currentDifficulty := d, blocksInPeriod := 0, periodStartTime := now },
      ?_, rfl, rfl, (if_pos hp).symm⟩
    rw [if_pos hp, hd]
    rfl
  · exact ⟨state, if_neg hp, rfl, rfl, (if_neg hp).symm⟩

namespace PoWConsensus

/-- The proof is accepted by a chain state: it is for the next height and its hash meets the
target of the current difficulty. -/
def Accepts (state : ChainState) (proof : WorkProof) : Prop :=
  proof.blockHeight = state.currentHeight + 1 ∧
    ∃ target, WorkPackage.calculateTargetFromDifficulty state.currentDifficulty = .ok target ∧
      sliceLe proof.hashResult target = true

/-- `submit_block`, taken apart: it fails and changes nothing, or a state of the chain
accepts the proof and the extended state is stored with a record. -/
theorem submitBlock_cases (scale : ScaleDifficulty) (s : PoWConsensus) (proof : WorkProof)
    (now : U64) :
    ((∀ state, s.chainStates.lookup proof.chainId = some state → ¬Accepts state proof) ∧
      ∃ e, s.submitBlock scale proof now = (.error e, s)) ∨
    (∃ state state', s.chainStates.lookup proof.chainId = some state ∧ Accepts state proof ∧
      (state.extend proof now).retarget scale s.config now = .ok state' ∧
      s.submitBlock scale proof now =
        (.ok true, (s.store proof.chainId state').record state' proof now)) := by
  unfold submitBlock
  cases hl : s.chainStates.lookup proof.chainId with
  | none => exact .inl ⟨fun _ h ↦ (nomatch h), _, rfl⟩
  | some state =>
    dsimp only
    split
    · next hh =>
      refine .inl ⟨?_, _, rfl⟩
      rintro _ ⟨⟩ ha
      exact hh ha.1
    · next hh =>
      cases ht : WorkPackage.calculateTargetFromDifficulty state.currentDifficulty with
      | error e =>
        refine .inl ⟨?_, _, rfl⟩
        rintro _ ⟨⟩ ⟨-, target, htarget, -⟩
        cases ht.symm.trans htarget
      | ok target =>
        dsimp only
        split
        · next hs =>
          refine .inl ⟨?_, _, rfl⟩
          rintro _ ⟨⟩ ⟨-, target', htarget, hle⟩
          cases ht.symm.trans htarget
          rw [hs] at hle
          cases hle
        · next hs =>
          obtain ⟨state', hr, -⟩ := (state.extend proof now).retarget_ok scale s.config now
          rw [hr]
          exact .inr ⟨state, state', rfl, ⟨not_not.mp hh, target, ht, by simpa using hs⟩, hr, rfl⟩

/-- `initialize_chain`, taken apart: it fails and changes nothing, or it stores a new state
under a free chain id. -/
theorem initializeChain_cases (s : PoWConsensus) (chainId : U32) (now : U64) :
    (∃ e, s.initializeChain chainId now = (.error e, s)) ∨
    (s.chainStates.lookup chainId = none ∧
      s.initializeChain chainId now = (.ok (), s.store chainId (.new chainId now))) := by
  unfold initializeChain
  split
  · exact .inl ⟨_, rfl⟩
  · split
    · exact .inl ⟨_, rfl⟩
    · next h => exact .inr ⟨by simpa using h, rfl⟩

end PoWConsensus
end SilverPow.Consensus
