import SilverPow.Consensus.Engine

/-!
# Chains over whole runs

The records of a chain, its height, its period counter and its work are updated apart from
each other, and the history is shared by all chains. In every run they stay in step: the
records are the heights from one up to the current one, the counter is the height modulo
the interval, and the work is that of the accepted proofs.
-/

namespace SilverPow.Consensus

open SilverPow.Base SilverPow.Work PoWConsensus

/-- The records of one chain, oldest first. -/
def PoWConsensus.recordsOf (s : PoWConsensus) (chainId : U32) : List BlockRecord :=
  s.blockHistory.filter (·.chainId == chainId)

/-- The proof for the chain that an event submitted with success. -/
def acceptedProof (chainId : U32) (e : Event) : Option WorkProof :=
  match e.call, e.result with
  | .submitBlock proof, .ok _ => if proof.chainId = chainId then some proof else none
  | _, _ => none

/-- The proofs for the chain that a run accepted, oldest first. -/
def acceptedProofs (chainId : U32) (es : List Event) : List WorkProof :=
  es.filterMap (acceptedProof chainId)

/-- True sum of the difficulties that proofs achieved. -/
def workOf (proofs : List WorkProof) : Nat := (proofs.map (·.difficultyAchieved.toNat)).sum

/-- What holds between the state of a chain, its records and its accepted proofs. -/
structure ChainBooks (interval : U64) (state : ChainState) (records : List BlockRecord)
    (proofs : List WorkProof) : Prop where
  heights : records.map (·.height.toNat) = List.range' 1 state.currentHeight.toNat
  period : state.blocksInPeriod.toNat = state.currentHeight.toNat % interval.toNat
  work : state.totalWork.toNat = workOf proofs
  count : proofs.length = records.length

/-- What holds of the engine after a run with the given events. -/
structure Books (config : PoWConfig) (es : List Event) (s : PoWConsensus) : Prop where
  config_eq : s.config = config
  chain : ∀ chainId state, s.chainStates.lookup chainId = some state →
    ChainBooks config.difficultyAdjustmentInterval state (s.recordsOf chainId)
      (acceptedProofs chainId es)
  absent : ∀ chainId, s.chainStates.lookup chainId = none →
    s.recordsOf chainId = [] ∧ acceptedProofs chainId es = []
  fits : s.blockHistory.length ≤ maxCapacity

/-! ### One chain -/

/-- A new chain has no records and no proofs. -/
theorem chainBooks_new (interval : U64) (chainId : U32) (now : U64) :
    ChainBooks interval (.new chainId now) [] [] where
  heights := rfl
  period := (Nat.zero_mod _).symm
  work := rfl
  count := rfl

/-- The height of a chain is the number of its records. -/
theorem ChainBooks.length_records {interval : U64} {state : ChainState}
    {records : List BlockRecord} {proofs : List WorkProof}
    (h : ChainBooks interval state records proofs) :
    records.length = state.currentHeight.toNat := by
  have := congrArg List.length h.heights
  rwa [List.length_map, List.length_range'] at this

/-- A proof adds what it achieved. -/
theorem workOf_append (proofs : List WorkProof) (proof : WorkProof) :
    workOf (proofs ++ [proof]) = workOf proofs + proof.difficultyAchieved.toNat := by
  simp [workOf]

/-- As many proofs achieve less than `2 ^ 64` each. -/
theorem workOf_le (proofs : List WorkProof) : workOf proofs ≤ proofs.length * 2 ^ 64 := by
  unfold workOf
  induction proofs with
  | nil => exact Nat.le_refl _
  | cons p proofs ih =>
    have := p.difficultyAchieved.isLt
    rw [List.map_cons, List.sum_cons, List.length_cons]
    omega

/-- Counting one more block in a period, which starts again when it is full. -/
private theorem toNat_period {interval b : U64} {n : Nat} (hi : interval ≠ 0)
    (hb : b.toNat = n % interval.toNat) :
    (if interval ≤ b + 1 then 0 else b + 1 : U64).toNat = (n + 1) % interval.toNat := by
  have hpos : 0 < interval.toNat := BitVec.toNat_pos_of_ne_zero hi
  have hlt : n % interval.toNat < interval.toNat := Nat.mod_lt n hpos
  have hsucc : (b + 1).toNat = n % interval.toNat + 1 := by
    rw [BitVec.toNat_add, hb, Nat.mod_eq_of_lt]
    · rfl
    · have := interval.isLt
      rw [show (1 : U64).toNat = 1 from rfl]
      omega
  have hn : n % interval.toNat + interval.toNat * (n / interval.toNat) = n :=
    Nat.mod_add_div n interval.toNat
  by_cases hle : interval ≤ b + 1
  · rw [if_pos hle]
    rw [BitVec.le_def, hsucc] at hle
    have hm := ((Nat.div_mod_unique (a := n + 1) (c := 0) (d := n / interval.toNat + 1) hpos).mpr
      ⟨by rw [Nat.mul_succ]; omega, hpos⟩).2
    exact hm.symm
  · rw [if_neg hle, hsucc]
    rw [BitVec.le_def, hsucc] at hle
    exact ((Nat.div_mod_unique (d := n / interval.toNat) hpos).mpr ⟨by omega, by omega⟩).2.symm

/-- An accepted block is booked with its record and its proof. -/
theorem chainBooks_extend {config : PoWConfig} (hi : config.difficultyAdjustmentInterval ≠ 0)
    {state state' : ChainState} {records : List BlockRecord} {proofs : List WorkProof}
    (h : ChainBooks config.difficultyAdjustmentInterval state records proofs)
    (hfit : records.length < maxCapacity) {scale : ScaleDifficulty} {proof : WorkProof} {now : U64}
    (ha : Accepts state proof)
    (hr : (state.extend proof now).retarget scale config now = .ok state')
    {r : BlockRecord} (hheight : r.height = proof.blockHeight) :
    ChainBooks config.difficultyAdjustmentInterval state' (records ++ [r]) (proofs ++ [proof]) := by
  obtain ⟨_, hr', hh, hw, hp⟩ := (state.extend proof now).retarget_ok scale config now
  cases hr.symm.trans hr'
  have hlen := h.length_records
  have hsucc : (state.currentHeight + 1).toNat = state.currentHeight.toNat + 1 := by
    unfold maxCapacity at hfit
    rw [BitVec.toNat_add, Nat.mod_eq_of_lt] <;> rw [show (1 : U64).toNat = 1 from rfl]
    omega
  rw [ChainState.extend_currentHeight] at hh
  rw [ChainState.extend_totalWork] at hw
  rw [ChainState.extend_blocksInPeriod] at hp
  constructor
  · rw [List.map_append, h.heights, hh, hsucc, List.range'_1_concat, List.map_singleton,
      hheight, ha.1, hsucc, Nat.add_comm 1]
  · rw [hp, hh, hsucc, toNat_period hi h.period]
  · have hle := workOf_le proofs
    have hd := proof.difficultyAchieved.isLt
    have hc := h.count
    unfold maxCapacity at hfit
    rw [hw, BitVec.toNat_add, BitVec.toNat_setWidth, h.work, workOf_append, Nat.add_mod_mod,
      Nat.mod_eq_of_lt (by omega)]
  · rw [List.length_append, List.length_append, h.count]
    rfl

/-! ### One call -/

/-- The record that an accepted proof appends is the last one of its chain and of no other. -/
theorem recordsOf_record (s : PoWConsensus) (state : ChainState) (proof : WorkProof) (now : U64)
    (chainId : U32) :
    ∃ r : BlockRecord, r.height = proof.blockHeight ∧
      (s.record state proof now).recordsOf chainId =
        if chainId = proof.chainId then s.recordsOf chainId ++ [r] else s.recordsOf chainId :=
  ⟨⟨proof.chainId, proof.blockHeight, proof.hashResult, now, state.currentDifficulty,
    proof.minerAddress, proof.nonce⟩, rfl,
    Table.filter_key_concat BlockRecord.chainId s.blockHistory _ chainId⟩

/-- An event adds at most one proof. -/
theorem acceptedProofs_append (chainId : U32) (es : List Event) (e : Event) :
    acceptedProofs chainId (es ++ [e]) =
      acceptedProofs chainId es ++ (acceptedProof chainId e).toList := by
  rw [acceptedProofs, List.filterMap_append]
  rfl

/-- An event without a proof for the chain adds none. -/
theorem acceptedProofs_append_of_none {chainId : U32} (es : List Event) {e : Event}
    (h : acceptedProof chainId e = none) :
    acceptedProofs chainId (es ++ [e]) = acceptedProofs chainId es := by
  rw [acceptedProofs_append, h, Option.toList_none, List.append_nil]

section Step

variable {config : PoWConfig} {es : List Event} {s : PoWConsensus} (h : Books config es s)
include h

/-- A call that adds no proof and changes nothing keeps the books. -/
private theorem books_unchanged {e : Event} (he : ∀ chainId, acceptedProof chainId e = none) :
    Books config (es ++ [e]) s := by
  refine ⟨h.config_eq, fun chainId state hl ↦ ?_, fun chainId hl ↦ ?_, h.fits⟩
  · rw [acceptedProofs_append_of_none es (he chainId)]
    exact h.chain chainId state hl
  · rw [acceptedProofs_append_of_none es (he chainId)]
    exact h.absent chainId hl

/-- Initialising a free chain keeps the books. -/
private theorem books_initialized {chainId : U32} (hfree : s.chainStates.lookup chainId = none)
    {e : Event} (he : ∀ chainId, acceptedProof chainId e = none) (now : U64) :
    Books config (es ++ [e]) (s.store chainId (.new chainId now)) := by
  obtain ⟨hr, hp⟩ := h.absent chainId hfree
  refine ⟨h.config_eq, Table.forall_lookup_insert ?_ ?_, Table.forall_lookup_insert_none ?_,
    h.fits⟩
  · rw [acceptedProofs_append_of_none es (he chainId), hp]
    change ChainBooks _ _ (s.recordsOf chainId) _
    rw [hr]
    exact chainBooks_new _ _ _
  · intro c state _ hl
    rw [acceptedProofs_append_of_none es (he c)]
    exact h.chain c state hl
  · intro c _ hl
    rw [acceptedProofs_append_of_none es (he c)]
    exact h.absent c hl

/-- An accepted block keeps the books while the history fits. -/
private theorem books_accepted (hi : config.difficultyAdjustmentInterval ≠ 0)
    {scale : ScaleDifficulty} {proof : WorkProof} {now : U64} {state state' : ChainState}
    (hl : s.chainStates.lookup proof.chainId = some state) (ha : Accepts state proof)
    (hr : (state.extend proof now).retarget scale s.config now = .ok state') {e : Event}
    (he : ∀ chainId, acceptedProof chainId e =
      if proof.chainId = chainId then some proof else none)
    (hfit : s.blockHistory.length < maxCapacity) :
    Books config (es ++ [e]) ((s.store proof.chainId state').record state' proof now) := by
  have hlen (chainId : U32) : (s.recordsOf chainId).length < maxCapacity :=
    (List.length_filter_le _ _).trans_lt hfit
  have hnone (c : U32) (hc : c ≠ proof.chainId) : acceptedProof c e = none :=
    (he c).trans (if_neg (Ne.symm hc))
  rw [h.config_eq] at hr
  refine ⟨h.config_eq, Table.forall_lookup_insert ?_ ?_, Table.forall_lookup_insert_none ?_, ?_⟩
  · obtain ⟨r, hheight, hrec⟩ :=
      recordsOf_record (s.store proof.chainId state') state' proof now proof.chainId
    rw [hrec, if_pos rfl, acceptedProofs_append, he, if_pos rfl]
    exact chainBooks_extend hi (h.chain _ _ hl) (hlen _) ha hr hheight
  · intro c st hc hlc
    obtain ⟨r, -, hrec⟩ := recordsOf_record (s.store proof.chainId state') state' proof now c
    rw [hrec, if_neg hc, acceptedProofs_append_of_none es (hnone c hc)]
    exact h.chain c st hlc
  · intro c hc hlc
    obtain ⟨r, -, hrec⟩ := recordsOf_record (s.store proof.chainId state') state' proof now c
    rw [hrec, if_neg hc, acceptedProofs_append_of_none es (hnone c hc)]
    exact h.absent c hlc
  · change (s.blockHistory ++ [_]).length ≤ maxCapacity
    rw [List.length_append, List.length_singleton]
    omega

/-- Every call keeps the books while the history fits. -/
theorem books_step (hi : config.difficultyAdjustmentInterval ≠ 0) {scale : ScaleDifficulty}
    {e : Event} {s' : PoWConsensus} (hs : s.perform scale e.call e.now = (e.result, s'))
    (hfit : s'.blockHistory.length ≤ maxCapacity) : Books config (es ++ [e]) s' := by
  obtain ⟨call, now, result⟩ := e
  unfold perform at hs
  cases call with
  | initializeChain chainId =>
    obtain ⟨e, he⟩ | ⟨hfree, he⟩ := s.initializeChain_cases chainId now
    · simp only [he] at hs
      cases hs
      exact books_unchanged h fun _ ↦ rfl
    · simp only [he] at hs
      cases hs
      exact books_initialized h hfree (fun _ ↦ rfl) now
  | submitBlock proof =>
    obtain ⟨-, e, he⟩ | ⟨state, state', hl, ha, hr, he⟩ := s.submitBlock_cases scale proof now
    · simp only [he] at hs
      cases hs
      exact books_unchanged h fun _ ↦ rfl
    · simp only [he] at hs
      cases hs
      refine books_accepted h hi hl ha hr (fun _ ↦ rfl) ?_
      have hlen : (s.blockHistory ++ [_]).length ≤ maxCapacity := hfit
      rw [List.length_append, List.length_singleton] at hlen
      exact hlen

end Step

/-- Every run from a new engine keeps the books. -/
theorem books_of_run {config : PoWConfig} (hi : config.difficultyAdjustmentInterval ≠ 0)
    {scale : ScaleDifficulty} {es : List Event} {s : PoWConsensus}
    (h : ConsensusRun scale (.new config) es s) : Books config es s := by
  refine h.historyInvariant (Books config) ?_ ?_
  · exact ⟨rfl, fun _ _ hl ↦ (nomatch hl), fun _ _ ↦ ⟨rfl, rfl⟩, Nat.zero_le _⟩
  · rintro es s e s' hb ⟨hs, hfit⟩
    exact books_step hb hi hs hfit

/-! ### The invariant of the engine -/

/-- What holds of the engine in every run, of all its chains and of the next call. -/
structure ConsensusInvariant (scale : ScaleDifficulty) (config : PoWConfig) (es : List Event)
    (s : PoWConsensus) : Prop where
  /-- The records of a chain have the heights from one up to the current one. -/
  heights : ∀ c state, s.chainStates.lookup c = some state →
    (s.recordsOf c).map (·.height.toNat) = List.range' 1 state.currentHeight.toNat
  /-- The blocks of the period are counted modulo the interval. -/
  period : ∀ c state, s.chainStates.lookup c = some state → state.blocksInPeriod.toNat =
    state.currentHeight.toNat % config.difficultyAdjustmentInterval.toNat
  /-- The work is the sum over the accepted proofs. -/
  work : ∀ c state, s.chainStates.lookup c = some state →
    state.totalWork.toNat = workOf (acceptedProofs c es)
  /-- The history of a chain is its last records, newest first. -/
  history : ∀ c state limit, s.chainStates.lookup c = some state →
    s.getBlockHistory c limit = ((s.recordsOf c).drop
      (state.currentHeight.toNat - min limit state.currentHeight.toNat)).reverse
  /-- A call that fails changes nothing. -/
  failure : ∀ call now e, (s.perform scale call now).1 = .error e →
    (s.perform scale call now).2 = s
  /-- A call leaves the state of every other chain unchanged. -/
  frame : ∀ call now c, c ≠ call.chainId →
    (s.perform scale call now).2.chainStates.lookup c = s.chainStates.lookup c

/-- A call, taken apart: it fails and changes nothing, or it stores a state of its chain. -/
theorem perform_cases (scale : ScaleDifficulty) (s : PoWConsensus) (call : Call) (now : U64) :
    (∃ e, s.perform scale call now = (.error e, s)) ∨
    ∃ state s', s.perform scale call now = (.ok true, s') ∧
      s'.chainStates = s.chainStates.insert call.chainId state := by
  unfold perform
  cases call with
  | initializeChain chainId =>
    obtain ⟨e, he⟩ | ⟨-, he⟩ := s.initializeChain_cases chainId now
    · exact .inl ⟨e, by simp only [he]; rfl⟩
    · exact .inr ⟨.new chainId now, _, by simp only [he]; rfl, rfl⟩
  | submitBlock proof =>
    obtain ⟨-, e, he⟩ | ⟨_, state', -, -, -, he⟩ := s.submitBlock_cases scale proof now
    · exact .inl ⟨e, he⟩
    · exact .inr ⟨state', _, he, rfl⟩

/-- A call that fails changes nothing. -/
theorem perform_of_error {scale : ScaleDifficulty} {s : PoWConsensus} {call : Call} {now : U64}
    {e : PoWError} (h : (s.perform scale call now).1 = .error e) :
    (s.perform scale call now).2 = s := by
  obtain ⟨_, he⟩ | ⟨_, _, he, -⟩ := perform_cases scale s call now
  · rw [he]
  · rw [he] at h
    cases h

/-- A call leaves the state of every other chain unchanged. -/
theorem lookup_perform_of_ne (scale : ScaleDifficulty) (s : PoWConsensus) {call : Call}
    (now : U64) {c : U32} (hc : c ≠ call.chainId) :
    (s.perform scale call now).2.chainStates.lookup c = s.chainStates.lookup c := by
  obtain ⟨_, he⟩ | ⟨state, s', he, hs⟩ := perform_cases scale s call now
  · rw [he]
  · rw [he, hs]
    exact Finmap.lookup_insert_of_ne _ hc

/-- The invariant holds in every run, for any float retargeting and any clock. -/
theorem consensusInvariant_of_run {scale : ScaleDifficulty} {config : PoWConfig}
    (hi : config.difficultyAdjustmentInterval ≠ 0) {es : List Event} {s : PoWConsensus}
    (h : ConsensusRun scale (.new config) es s) : ConsensusInvariant scale config es s := by
  have hb := books_of_run hi h
  refine ⟨fun c state hl ↦ (hb.chain c state hl).heights,
    fun c state hl ↦ (hb.chain c state hl).period, fun c state hl ↦ (hb.chain c state hl).work,
    fun c state limit hl ↦ ?_, fun _ _ _ he ↦ perform_of_error he,
    fun _ now _ hc ↦ lookup_perform_of_ne scale s now hc⟩
  have hlen := (hb.chain c state hl).length_records
  change (s.recordsOf c).reverse.take limit = _
  rw [List.take_reverse, hlen]
  congr 2
  omega

/-! ### A run -/

/-- The float expression in exact arithmetic: the ratio of expected and taken time is cut to
between a quarter and four, and the cast saturates. -/
def exactScale : ScaleDifficulty := fun currentDifficulty expectedTimeMs timeForPeriodMs ↦
  let scaled := currentDifficulty.toNat * expectedTimeMs.toNat / timeForPeriodMs.toNat
  BitVec.ofNat 64 (min (max scaled (currentDifficulty.toNat / 4))
    (min (4 * currentDifficulty.toNat) (2 ^ 64 - 1)))

/-- A proof for the first block of chain 0. -/
def firstProof (hashResult : Bytes) : WorkProof where
  workId := []
  chainId := 0
  blockHeight := 1
  nonce := 0
  extraNonce := 0
  blockHash := []
  hashResult
  timestamp := 0
  minerAddress := [7]
  difficultyAchieved := 5

/-- A new engine with chain 0. -/
def withChain (config : PoWConfig) : PoWConsensus :=
  ((new config).perform exactScale (.initializeChain 0) 10).2

/-- Initialising the chain leads there. -/
theorem withChain_run (config : PoWConfig) :
    ConsensusRun exactScale (.new config) [⟨.initializeChain 0, 10, .ok true⟩]
      (withChain config) :=
  .snoc .nil ⟨rfl, Nat.zero_le _⟩

/-- A chain whose interval is one block, so that its first block ends a period. -/
theorem consensusInvariant_of_one_block :
    ConsensusInvariant exactScale { PoWConfig.default with difficultyAdjustmentInterval := 1 }
      [⟨.initializeChain 0, 10, .ok true⟩,
        ⟨.submitBlock (firstProof (List.replicate 64 0)), 40, .ok true⟩]
      ((withChain { PoWConfig.default with difficultyAdjustmentInterval := 1 }).perform exactScale
        (.submitBlock (firstProof (List.replicate 64 0))) 40).2 :=
  consensusInvariant_of_run (by decide) (.snoc (withChain_run _) ⟨rfl, by decide +kernel⟩)

end SilverPow.Consensus
