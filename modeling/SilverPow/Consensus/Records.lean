import SilverPow.Consensus.Chains

/-!
# The difficulty in a block record

The record of an accepted block is written after the retargeting, with the difficulty that
holds from then on. It is the difficulty that the block met exactly when no accepted block
both ends a period and changes the difficulty.
-/

namespace SilverPow.Consensus

open SilverPow.Base PoWConsensus

/-- `ConsensusStats`, `src/consensus.rs:285–292`. -/
structure ConsensusStats where
  activeChains : Nat
  totalBlocks : U64
  totalWork : U128
  averageDifficulty : U128
  uptimeSeconds : U64

/-- `get_stats`, `src/consensus.rs:252–272`, given the time since the start; the sum of the
recorded difficulties wraps. -/
def PoWConsensus.getStats (s : PoWConsensus) (uptimeSeconds : U64) : ConsensusStats :=
  let totalBlocks := BitVec.ofNat 64 s.blockHistory.length
  let totalWork := (s.blockHistory.map fun b ↦ b.difficulty.setWidth 128).sum
  { activeChains := s.chainStates.entries.card
    totalBlocks
    totalWork
    averageDifficulty :=
      if s.blockHistory.isEmpty then 0 else totalWork / totalBlocks.setWidth 128
    uptimeSeconds }

/-- The difficulty whose target the block of an accepted submission met. -/
def metDifficulty (s : PoWConsensus) (e : Event) : Option U64 :=
  match e.call, e.result with
  | .submitBlock proof, .ok _ => (s.chainStates.lookup proof.chainId).map (·.currentDifficulty)
  | _, _ => none

/-- The difficulties that the accepted blocks of a run met, in order. -/
def metDifficulties (scale : ScaleDifficulty) : PoWConsensus → List Event → List U64 :=
  Run.collect (fun s e ↦ (s.perform scale e.call e.now).2) metDifficulty

/-- The records hold the difficulties that the accepted blocks met, and the work in the
statistics is their sum. -/
def RecordsMet (scale : ScaleDifficulty) (s₀ : PoWConsensus) (es : List Event)
    (s : PoWConsensus) : Prop :=
  s.blockHistory.map (·.difficulty) = metDifficulties scale s₀ es ∧
    ∀ uptime, (s.getStats uptime).totalWork.toNat =
      ((metDifficulties scale s₀ es).map BitVec.toNat).sum

/-- A block that the chain accepts does not end a period, or retargeting at its end yields
the difficulty that the chain has. -/
def KeepsDifficulty (scale : ScaleDifficulty) (s : PoWConsensus) (e : Event) : Prop :=
  ∀ proof state, e.call = .submitBlock proof →
    s.chainStates.lookup proof.chainId = some state → Accepts state proof →
    state.blocksInPeriod + 1 < s.config.difficultyAdjustmentInterval ∨
      adjustDifficultyKadenaStyle scale s.config state.currentDifficulty
        (state.blocksInPeriod + 1) ((e.now - state.periodStartTime) * 1000) =
          .ok state.currentDifficulty

/-- The step relation of the engine is a function of the call. -/
theorem PoWConsensus.step_deterministic (scale : ScaleDifficulty) (s : PoWConsensus) (e : Event)
    (s' : PoWConsensus) (h : s.perform scale e.call e.now = (e.result, s') ∧
      s'.blockHistory.length ≤ maxCapacity) : s' = (s.perform scale e.call e.now).2 :=
  (congrArg Prod.snd h.1).symm

/-- Retargeting leaves the difficulty as it was exactly when the period is not full or the
adjustment yields the same difficulty. -/
theorem retarget_currentDifficulty_iff {scale : ScaleDifficulty} {config : PoWConfig}
    {state state' : ChainState} {now : U64} (hr : state.retarget scale config now = .ok state') :
    state'.currentDifficulty = state.currentDifficulty ↔
      state.blocksInPeriod < config.difficultyAdjustmentInterval ∨
        adjustDifficultyKadenaStyle scale config state.currentDifficulty state.blocksInPeriod
          ((now - state.periodStartTime) * 1000) = .ok state.currentDifficulty := by
  unfold ChainState.retarget at hr
  dsimp only at hr
  by_cases hp : config.difficultyAdjustmentInterval ≤ state.blocksInPeriod
  · obtain ⟨d, hd⟩ := adjustDifficultyKadenaStyle_ok scale config state.currentDifficulty
      state.blocksInPeriod ((now - state.periodStartTime) * 1000)
    rw [if_pos hp, hd] at hr
    cases hr
    rw [hd, Except.ok.injEq]
    exact (or_iff_right (BitVec.not_lt.mpr hp)).symm
  · rw [if_neg hp] at hr
    cases hr
    exact iff_of_true rfl (.inl (BitVec.not_le.mp hp))

section Runs

variable {scale : ScaleDifficulty} {s₀ s s' : PoWConsensus} {es : List Event} {e : Event}

/-- A call either is no accepted block and adds neither a record nor a met difficulty, or
adds one of each, which agree exactly when the block keeps the difficulty. -/
theorem records_step (h : s.perform scale e.call e.now = (e.result, s')) :
    (metDifficulty s e = none ∧ s'.blockHistory = s.blockHistory ∧ KeepsDifficulty scale s e) ∨
    ∃ met r, metDifficulty s e = some met ∧ s'.blockHistory = s.blockHistory ++ [r] ∧
      (r.difficulty = met ↔ KeepsDifficulty scale s e) := by
  obtain ⟨call, now, result⟩ := e
  unfold perform at h
  cases call with
  | initializeChain chainId =>
    have hk : KeepsDifficulty scale s ⟨.initializeChain chainId, now, result⟩ :=
      fun _ _ hc ↦ (nomatch hc)
    obtain ⟨e, he⟩ | ⟨-, he⟩ := s.initializeChain_cases chainId now
    · simp only [he] at h
      cases h
      exact .inl ⟨rfl, rfl, hk⟩
    · simp only [he] at h
      cases h
      exact .inl ⟨rfl, rfl, hk⟩
  | submitBlock proof =>
    obtain ⟨hn, e, he⟩ | ⟨state, state', hl, ha, hr, he⟩ := s.submitBlock_cases scale proof now
    · simp only [he] at h
      cases h
      refine .inl ⟨rfl, rfl, ?_⟩
      rintro _ state ⟨⟩ hl ha
      exact absurd ha (hn state hl)
    · simp only [he] at h
      cases h
      refine .inr ⟨state.currentDifficulty, _, ?_, rfl,
        (retarget_currentDifficulty_iff hr).trans ?_⟩
      · simp only [metDifficulty, hl, Option.map_some]
      · constructor
        · rintro hk _ st ⟨⟩ hl' -
          cases hl.symm.trans hl'
          exact hk
        · intro hk
          exact hk proof state rfl hl ha

/-- The difficulties that a run met, and one call more. -/
theorem metDifficulties_concat (hr : ConsensusRun scale s₀ es s) (e : Event) :
    metDifficulties scale s₀ (es ++ [e]) =
      metDifficulties scale s₀ es ++ (metDifficulty s e).toList :=
  Run.collect_concat (step_deterministic scale) _ hr e

/-- In every run from an empty history the records hold the difficulties that were met
exactly when every accepted block keeps the difficulty. -/
theorem records_eq_iff (h₀ : s₀.blockHistory = []) (hr : ConsensusRun scale s₀ es s) :
    s.blockHistory.map (·.difficulty) = metDifficulties scale s₀ es ↔
      Run (Guarded (KeepsDifficulty scale) fun s e s' ↦
        s.perform scale e.call e.now = (e.result, s') ∧ s'.blockHistory.length ≤ maxCapacity)
        s₀ es s := by
  induction hr with
  | nil =>
    rw [h₀]
    exact ⟨fun _ ↦ .nil, fun _ ↦ rfl⟩
  | snoc hr hs ih =>
    rw [metDifficulties_concat hr, Run.guarded_snoc_iff (step_deterministic scale) hr hs, ← ih]
    obtain ⟨hm, hb, hk⟩ | ⟨met, r, hm, hb, hk⟩ := records_step hs.1
    · rw [hm, hb, Option.toList_none, List.append_nil]
      exact (and_iff_left hk).symm
    · rw [hm, hb, List.map_append, Option.toList_some, List.map_singleton, ← hk]
      constructor
      · intro he
        obtain ⟨hl, hd⟩ := List.append_inj' he rfl
        exact ⟨hl, List.singleton_inj.mp hd⟩
      · rintro ⟨hl, hd⟩
        rw [hl, hd]

/-- The history of a new engine fits a vector along every run. -/
theorem length_blockHistory_le (h₀ : s₀.blockHistory = []) (hr : ConsensusRun scale s₀ es s) :
    s.blockHistory.length ≤ maxCapacity := by
  refine hr.invariant (fun s ↦ s.blockHistory.length ≤ maxCapacity) ?_ fun _ _ _ _ hs ↦ hs.2
  rw [h₀]
  exact Nat.zero_le _

/-- The work in the statistics is the true sum of the recorded difficulties while the
history fits a vector. -/
theorem toNat_totalWork (h : s.blockHistory.length ≤ maxCapacity) (uptime : U64) :
    (s.getStats uptime).totalWork.toNat =
      ((s.blockHistory.map (·.difficulty)).map BitVec.toNat).sum := by
  have hle (records : List BlockRecord) :
      ((records.map (·.difficulty)).map BitVec.toNat).sum ≤ records.length * 2 ^ 64 := by
    induction records with
    | nil => exact Nat.le_refl _
    | cons r records ih =>
      have hr := r.difficulty.isLt
      simp only [List.map_cons, List.sum_cons, List.length_cons]
      omega
  have hmap : (s.blockHistory.map fun b ↦ b.difficulty.setWidth 128).map BitVec.toNat =
      (s.blockHistory.map (·.difficulty)).map BitVec.toNat := by
    rw [List.map_map, List.map_map]
    refine List.map_congr_left fun r _ ↦ (BitVec.toNat_setWidth 128 r.difficulty).trans ?_
    exact Nat.mod_eq_of_lt (Nat.lt_trans r.difficulty.isLt (show 2 ^ 64 < 2 ^ 128 by decide))
  have hs := hle s.blockHistory
  unfold maxCapacity at h
  rw [getStats, Word.toNat_sum, hmap]
  exact Nat.mod_eq_of_lt (by omega)

end Runs

/-- In every run of an engine, for any float retargeting and any clock, the records hold the
difficulties that were met and the statistics their sum, exactly when no accepted block ends
a period with another difficulty. -/
theorem recordsMet_iff {scale : ScaleDifficulty} {config : PoWConfig} {es : List Event}
    {s : PoWConsensus} (hr : ConsensusRun scale (.new config) es s) :
    RecordsMet scale (.new config) es s ↔
      Run (Guarded (KeepsDifficulty scale) fun s e s' ↦
        s.perform scale e.call e.now = (e.result, s') ∧ s'.blockHistory.length ≤ maxCapacity)
        (.new config) es s := by
  rw [← records_eq_iff rfl hr]
  refine and_iff_left_of_imp fun he uptime ↦ ?_
  rw [toNat_totalWork (length_blockHistory_le rfl hr), he]

/-- A configuration whose periods are one block long. -/
def oneBlockConfig : PoWConfig := { PoWConfig.default with difficultyAdjustmentInterval := 1 }

/-- The engine of that configuration after the first block of a chain. -/
def afterFirstBlock (now : U64) : PoWConsensus :=
  ((withChain oneBlockConfig).perform exactScale
    (.submitBlock (firstProof (List.replicate 64 0))) now).2

/-- The calls that lead there. -/
def firstBlockEvents (now : U64) : List Event :=
  [⟨.initializeChain 0, 10, .ok true⟩,
    ⟨.submitBlock (firstProof (List.replicate 64 0)), now, .ok true⟩]

/-- A block after ten seconds instead of thirty is recorded with three times the difficulty
that it met. -/
theorem record_of_next_difficulty :
    ConsensusRun exactScale (.new oneBlockConfig) (firstBlockEvents 20) (afterFirstBlock 20) ∧
      (afterFirstBlock 20).blockHistory.map (·.difficulty) = [3_000_000] ∧
      metDifficulties exactScale (.new oneBlockConfig) (firstBlockEvents 20) = [1_000_000] ∧
      ¬RecordsMet exactScale (.new oneBlockConfig) (firstBlockEvents 20)
        (afterFirstBlock 20) := by
  have hb : (afterFirstBlock 20).blockHistory.map (·.difficulty) = [3_000_000] := by
    decide +kernel
  have hm : metDifficulties exactScale (.new oneBlockConfig) (firstBlockEvents 20) =
      [1_000_000] := by
    decide +kernel
  refine ⟨.snoc (withChain_run _) ⟨rfl, by decide +kernel⟩, hb, hm, fun h ↦ ?_⟩
  rw [RecordsMet, hb, hm] at h
  exact absurd h.1 (by decide)

/-- A block after thirty seconds leaves the difficulty as it was. -/
theorem recordsMet_iff_thirty :
    RecordsMet exactScale (.new oneBlockConfig) (firstBlockEvents 40) (afterFirstBlock 40) ↔
      Run (Guarded (KeepsDifficulty exactScale) fun s e s' ↦
        s.perform exactScale e.call e.now = (e.result, s') ∧
          s'.blockHistory.length ≤ maxCapacity)
        (.new oneBlockConfig) (firstBlockEvents 40) (afterFirstBlock 40) :=
  recordsMet_iff (.snoc (withChain_run _) ⟨rfl, by decide +kernel⟩)

end SilverPow.Consensus
