import SilverPow.Consensus.Chains

/-!
# The range of the difficulty

Retargeting clamps the difficulty to the configured bounds or leaves it as it is, so every
chain stays in the range it starts in. It starts at a constant and not at the configured
initial difficulty, and is in range exactly when that constant is.
-/

namespace SilverPow.Consensus

open SilverPow.Base PoWConsensus

/-- A difficulty within the configured bounds. -/
def InRange (config : PoWConfig) (difficulty : U64) : Prop :=
  config.minDifficulty ≤ difficulty ∧ difficulty ≤ config.maxDifficulty

/-- The difficulty of every chain is within the configured bounds. -/
def DifficultiesInRange (config : PoWConfig) (s : PoWConsensus) : Prop :=
  ∀ c state, s.chainStates.lookup c = some state → InRange config state.currentDifficulty

/-- Clamping to bounds in order yields a value within them. -/
theorem inRange_clamp {config : PoWConfig} (h : config.minDifficulty ≤ config.maxDifficulty)
    (d : U64) :
    InRange config
      (Word.smaller (Word.larger d config.minDifficulty) config.maxDifficulty) := by
  rw [BitVec.le_def] at h
  rw [InRange, BitVec.le_def, BitVec.le_def, Word.toNat_smaller, Word.toNat_larger]
  omega

/-- Retargeting stays within the bounds. -/
theorem inRange_adjustDifficulty {config : PoWConfig}
    (h : config.minDifficulty ≤ config.maxDifficulty) {scale : ScaleDifficulty}
    {currentDifficulty blocksInPeriod timeForPeriodMs d : U64}
    (hc : InRange config currentDifficulty)
    (hd : adjustDifficultyKadenaStyle scale config currentDifficulty blocksInPeriod
      timeForPeriodMs = .ok d) : InRange config d := by
  unfold adjustDifficultyKadenaStyle at hd
  split at hd
  · cases hd
    exact hc
  · split at hd
    · cases hd
      exact hc
    · cases hd
      exact inRange_clamp h _

/-- The state of a chain after an accepted block has its difficulty within the bounds. -/
theorem inRange_retarget {config : PoWConfig} (h : config.minDifficulty ≤ config.maxDifficulty)
    {scale : ScaleDifficulty} {state state' : ChainState} {now : U64}
    (hc : InRange config state.currentDifficulty)
    (hr : state.retarget scale config now = .ok state') :
    InRange config state'.currentDifficulty := by
  unfold ChainState.retarget at hr
  dsimp only at hr
  split at hr
  · obtain ⟨d, hd⟩ := adjustDifficultyKadenaStyle_ok scale config state.currentDifficulty
      state.blocksInPeriod ((now - state.periodStartTime) * 1000)
    rw [hd] at hr
    cases hr
    exact inRange_adjustDifficulty h hc hd
  · cases hr
    exact hc

section Runs

variable {config : PoWConfig} {scale : ScaleDifficulty}

/-- Where a new chain is in range, every call keeps all chains in range. -/
theorem difficultiesInRange_step (h : config.minDifficulty ≤ config.maxDifficulty)
    (hnew : InRange config 1_000_000) {s : PoWConsensus} (hs : s.config = config)
    (hi : DifficultiesInRange config s) (call : Call) (now : U64) :
    DifficultiesInRange config (s.perform scale call now).2 := by
  unfold perform
  cases call with
  | initializeChain chainId =>
    obtain ⟨e, he⟩ | ⟨-, he⟩ := s.initializeChain_cases chainId now
    · simp only [he]
      exact hi
    · simp only [he]
      exact Table.forall_lookup_insert hnew fun c state _ hl ↦ hi c state hl
  | submitBlock proof =>
    obtain ⟨-, e, he⟩ | ⟨state, state', hl, -, hr, he⟩ := s.submitBlock_cases scale proof now
    · simp only [he]
      exact hi
    · simp only [he]
      rw [hs] at hr
      have hc : InRange config (state.extend proof now).currentDifficulty := hi _ state hl
      exact Table.forall_lookup_insert (inRange_retarget h hc hr) fun c state _ hl ↦ hi c state hl

/-- No call changes the configuration. -/
theorem config_perform (s : PoWConsensus) (call : Call) (now : U64) :
    (s.perform scale call now).2.config = s.config := by
  unfold perform
  cases call with
  | initializeChain chainId =>
    obtain ⟨e, he⟩ | ⟨-, he⟩ := s.initializeChain_cases chainId now
    · simp only [he]
    · simp only [he]
      rfl
  | submitBlock proof =>
    obtain ⟨-, e, he⟩ | ⟨_, _, -, -, -, he⟩ := s.submitBlock_cases scale proof now
    · simp only [he]
    · simp only [he]
      rfl

/-- In every run all difficulties stay within the configured bounds, for any float
retargeting and any clock, exactly when the constant that chains start with does. -/
theorem difficultiesInRange_iff (h : config.minDifficulty ≤ config.maxDifficulty) :
    (∀ es s, ConsensusRun scale (.new config) es s → DifficultiesInRange config s) ↔
      InRange config 1_000_000 := by
  constructor
  · intro hall
    have hl : (withChain config).chainStates.lookup 0 = some (.new 0 10) :=
      Finmap.lookup_insert _
    exact hall [⟨.initializeChain 0, 10, .ok true⟩] _ (.snoc .nil ⟨rfl, Nat.zero_le _⟩) 0 _ hl
  · intro hnew es s hr
    have hi : s.config = config ∧ DifficultiesInRange config s := by
      refine hr.invariant (fun s ↦ s.config = config ∧ DifficultiesInRange config s) ?_ ?_
      · exact ⟨rfl, fun _ _ hl ↦ (nomatch hl)⟩
      · rintro s e s' ⟨hs, hi⟩ ⟨he, -⟩
        have hs' : s' = (s.perform scale e.call e.now).2 := by rw [he]
        rw [hs', config_perform]
        exact ⟨hs, difficultiesInRange_step h hnew hs hi _ _⟩
    exact hi.2

end Runs

/-- A configuration whose bounds start above the constant. -/
def hardConfig : PoWConfig :=
  { PoWConfig.default with minDifficulty := 2_000_000, initialDifficulty := 2_000_000 }

/-- A new chain of that configuration has half the least difficulty. -/
theorem difficulty_below_minimum :
    1 ≤ hardConfig.minDifficulty ∧ hardConfig.minDifficulty ≤ hardConfig.initialDifficulty ∧
      hardConfig.initialDifficulty ≤ hardConfig.maxDifficulty ∧
      ConsensusRun exactScale (.new hardConfig) [⟨.initializeChain 0, 10, .ok true⟩]
        (withChain hardConfig) ∧
      ¬DifficultiesInRange hardConfig (withChain hardConfig) := by
  refine ⟨by decide, by decide, by decide, withChain_run _, fun h ↦ ?_⟩
  have hr : InRange hardConfig 1_000_000 := h 0 (.new 0 10) (Finmap.lookup_insert _)
  exact absurd hr.1 (by decide)

/-- The default configuration keeps all difficulties in range. -/
theorem difficultiesInRange_iff_default :
    (∀ es s, ConsensusRun exactScale (.new .default) es s → DifficultiesInRange .default s) ↔
      InRange .default 1_000_000 :=
  difficultiesInRange_iff (by decide)

end SilverPow.Consensus
