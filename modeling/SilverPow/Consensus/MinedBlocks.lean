import SilverPow.Consensus.Difficulty
import SilverPow.Work.Attempts
import SilverPow.Work.Identity

/-!
# From a package to an accepted block

A miner asks the engine for a package, searches for as long as it takes and submits the
proof. Other miners do the same at the same time, and the engine answers calls for all
chains in between. The height of the package decides: a proof is in time until the first
block of its chain that is accepted after the package was made.
-/

namespace SilverPow.Consensus

open SilverPow.Base SilverPow.Work

namespace PoWConsensus

/-- `get_chain_state`, `src/consensus.rs:114–120`. -/
def getChainState (s : PoWConsensus) (chainId : U32) : Except PoWError ChainState :=
  match s.chainStates.lookup chainId with
  | none => .error (.invalidBlock "Chain not found")
  | some state => .ok state

/-- `create_work_package`, `src/consensus.rs:123–155`. -/
def createWorkPackage (sha512 : Sha512) (s : PoWConsensus) (chainId : U32)
    (blockHash parentHash merkleRoot : Bytes) (now : U64) : Except PoWError WorkPackage := do
  let state ← s.getChainState chainId
  WorkPackage.new sha512 chainId (state.currentHeight + 1) blockHash parentHash merkleRoot now
    state.currentDifficulty

end PoWConsensus

open PoWConsensus

/-! ### The package and its proof -/

/-- A package that was built is for the given chain and height. -/
theorem chain_of_new {sha512 : Sha512} {chainId : U32} {blockHeight : U64}
    {blockHash parentHash merkleRoot : Bytes} {timestamp difficulty : U64} {work : WorkPackage}
    (h : WorkPackage.new sha512 chainId blockHeight blockHash parentHash merkleRoot timestamp
      difficulty = .ok work) : work.chainId = chainId ∧ work.blockHeight = blockHeight := by
  obtain ⟨-, hd, -⟩ := WorkPackage.of_new h
  obtain ⟨target, ht, -⟩ := WorkPackage.calculateTargetFromDifficulty_of_ne_zero hd
  unfold WorkPackage.new at h
  rw [if_neg hd, ht] at h
  repeat' split at h
  all_goals cases h
  exact ⟨rfl, rfl⟩

/-- A package is built from hashes of the right length for a chain below twenty. -/
theorem new_eq_ok (sha512 : Sha512) {chainId : U32} (hc : chainId < 20) (blockHeight : U64)
    {blockHash parentHash merkleRoot : Bytes} (hb : blockHash.length = 64)
    (hp : parentHash.length = 64) (hm : merkleRoot.length = 64) (timestamp : U64)
    {difficulty : U64} (hd : difficulty ≠ 0) :
    ∃ work, WorkPackage.new sha512 chainId blockHeight blockHash parentHash merkleRoot timestamp
      difficulty = .ok work := by
  obtain ⟨target, ht, -⟩ := WorkPackage.calculateTargetFromDifficulty_of_ne_zero hd
  unfold WorkPackage.new
  rw [if_neg hd, if_neg (BitVec.not_le.mpr hc), if_neg (not_not.mpr hb), if_neg (not_not.mpr hp),
    if_neg (not_not.mpr hm), ht]
  exact ⟨_, rfl⟩

/-- A package of the engine is for the next height of its chain, at the chain's difficulty. -/
theorem of_createWorkPackage {sha512 : Sha512} {s : PoWConsensus} {chainId : U32}
    {blockHash parentHash merkleRoot : Bytes} {now : U64} {work : WorkPackage}
    (h : s.createWorkPackage sha512 chainId blockHash parentHash merkleRoot now = .ok work) :
    ∃ state, s.chainStates.lookup chainId = some state ∧ work.chainId = chainId ∧
      work.blockHeight = state.currentHeight + 1 ∧
      WorkPackage.calculateTargetFromDifficulty state.currentDifficulty = .ok work.target := by
  unfold createWorkPackage getChainState at h
  cases hl : s.chainStates.lookup chainId with
  | none =>
    rw [hl] at h
    cases h
  | some state =>
    rw [hl] at h
    obtain ⟨hchain, hheight⟩ := chain_of_new h
    exact ⟨state, rfl, hchain, hheight, (WorkPackage.of_new h).2.2⟩

/-- A proof that the miner returns carries the chain and the height of its package and the
miner's address, and its hash meets the target of the package. -/
theorem of_mineWorkWithAddress {sha512 : Sha512} {work : WorkPackage} {minerAddress : Bytes}
    {env : MinerEnv} {fuel : Nat} {proof : WorkProof}
    (h : mineWorkWithAddress sha512 work minerAddress env fuel = some (.ok (some proof))) :
    proof.chainId = work.chainId ∧ proof.blockHeight = work.blockHeight ∧
      proof.minerAddress = minerAddress ∧ sliceLe proof.hashResult work.target = true := by
  obtain ⟨n, hfirst, hb⟩ := firstHit_of_mineWorkWithAddress h
  by_cases ha : minerAddress = []
  · -- Without an address no proof is built.
    rw [ha] at hb
    have hlen : ((attempt n).proofBuilder sha512 work [] env).hashResult.length = 64 :=
      Digest.length_eq _
    rw [Search.buildProof, WorkProofBuilderPow.build, if_neg (not_not.mpr hlen)] at hb
    cases hb
  · obtain ⟨d, -, hbuild⟩ := Search.buildProof_eq sha512 work env ha (attempt n)
    cases hb.symm.trans hbuild
    exact ⟨rfl, rfl, rfl, hfirst.1⟩

/-! ### A chain while the miner searches -/

section Runs

variable {scale : ScaleDifficulty} {s s' : PoWConsensus} {c : U32} {state : ChainState}

/-- A call leaves a chain as it is, or it accepts a block of the chain, which is then one
block higher. -/
theorem chain_step {e : Event} (hs : s.perform scale e.call e.now = (e.result, s'))
    (hl : s.chainStates.lookup c = some state) :
    (acceptedProof c e = none ∧ s'.chainStates.lookup c = some state ∧
      s.blockHistory.length ≤ s'.blockHistory.length) ∨
    ∃ proof state', acceptedProof c e = some proof ∧ s'.chainStates.lookup c = some state' ∧
      state'.currentHeight = state.currentHeight + 1 ∧
      s'.blockHistory.length = s.blockHistory.length + 1 := by
  obtain ⟨call, now, result⟩ := e
  unfold perform at hs
  cases call with
  | initializeChain chainId =>
    obtain ⟨e, he⟩ | ⟨hfree, he⟩ := s.initializeChain_cases chainId now
    · simp only [he] at hs
      cases hs
      exact .inl ⟨rfl, hl, Nat.le_refl _⟩
    · simp only [he] at hs
      cases hs
      have hne : c ≠ chainId := by
        rintro rfl
        cases hl.symm.trans hfree
      exact .inl ⟨rfl, (Finmap.lookup_insert_of_ne _ hne).trans hl, Nat.le_refl _⟩
  | submitBlock proof =>
    obtain ⟨-, e, he⟩ | ⟨st, state', hst, -, hr, he⟩ := s.submitBlock_cases scale proof now
    · simp only [he] at hs
      cases hs
      exact .inl ⟨rfl, hl, Nat.le_refl _⟩
    · simp only [he] at hs
      cases hs
      have hlen (r : BlockRecord) : (s.blockHistory ++ [r]).length = s.blockHistory.length + 1 :=
        List.length_append
      by_cases hc : proof.chainId = c
      · subst hc
        cases hl.symm.trans hst
        obtain ⟨_, hr', hheight, -⟩ := (state.extend proof now).retarget_ok scale s.config now
        cases hr.symm.trans hr'
        exact .inr ⟨proof, state', if_pos rfl, Finmap.lookup_insert _, hheight, hlen _⟩
      · have hkept := (Finmap.lookup_insert_of_ne s.chainStates (b := state') (Ne.symm hc)).trans hl
        exact .inl ⟨if_neg hc, hkept, (hlen _).ge.trans' (Nat.le_succ _)⟩

/-- What a run leaves of a chain: it is higher by the number of blocks that it accepted, and
without any it is as it was. -/
theorem chain_of_run {es : List Event} (hr : ConsensusRun scale s es s')
    (hl : s.chainStates.lookup c = some state) :
    ∃ state', s'.chainStates.lookup c = some state' ∧
      state'.currentHeight =
        state.currentHeight + BitVec.ofNat 64 (acceptedProofs c es).length ∧
      (acceptedProofs c es = [] → state' = state) ∧
      s.blockHistory.length + (acceptedProofs c es).length ≤ s'.blockHistory.length := by
  induction hr with
  | nil => exact ⟨state, hl, (BitVec.add_zero _).symm, fun _ ↦ rfl, Nat.le_refl _⟩
  | @snoc es t s' e hr hs ih =>
    obtain ⟨st, hst, hheight, hsame, hlen⟩ := ih
    rw [acceptedProofs_append]
    obtain ⟨hp, hkept, hle⟩ | ⟨proof, st', hp, hnew, hnext, hsucc⟩ := chain_step hs.1 hst
    · rw [hp, Option.toList_none, List.append_nil]
      exact ⟨st, hkept, hheight, hsame, hlen.trans hle⟩
    · rw [hp, Option.toList_some, List.length_append, List.length_singleton]
      refine ⟨st', hnew, ?_, fun he ↦ absurd he (List.append_ne_nil_of_right_ne_nil _ (by simp)),
        by omega⟩
      rw [hnext, hheight, BitVec.ofNat_add, BitVec.add_assoc]
      rfl

/-- A chain that accepted a block has another height. -/
theorem currentHeight_ne {es : List Event} (hr : ConsensusRun scale s es s')
    (hl : s.chainStates.lookup c = some state) (hne : acceptedProofs c es ≠ [])
    {state' : ChainState} (hl' : s'.chainStates.lookup c = some state') :
    state'.currentHeight ≠ state.currentHeight := by
  obtain ⟨_, hst, hheight, -, hlen⟩ := chain_of_run hr hl
  cases hl'.symm.trans hst
  have hfit : s'.blockHistory.length ≤ maxCapacity := by
    cases hr with
    | nil => exact absurd rfl hne
    | snoc _ hs => exact hs.2
  have hpos := List.length_pos_iff.mpr hne
  unfold maxCapacity at hfit
  -- The number of accepted blocks is below the width of the height.
  rw [hheight]
  intro heq
  have hz : BitVec.ofNat 64 (acceptedProofs c es).length = 0 := by simpa using heq
  have := congrArg BitVec.toNat hz
  rw [BitVec.toNat_ofNat, Nat.mod_eq_of_lt (by omega)] at this
  exact hpos.ne' this

end Runs

/-- Against any calls for any chains in between, the proof that a miner finds for a package of
the engine is accepted exactly when no block of the chain was accepted since the package was
made: of all the miners of a height, one is in time. -/
theorem submitBlock_mined_iff {sha512 : Sha512} {scale : ScaleDifficulty} {s s' : PoWConsensus}
    {es : List Event} {c : U32} {blockHash parentHash merkleRoot : Bytes} {created submitted : U64}
    {work : WorkPackage} {minerAddress : Bytes} {env : MinerEnv} {fuel : Nat} {proof : WorkProof}
    (hc : s.createWorkPackage sha512 c blockHash parentHash merkleRoot created = .ok work)
    (hm : mineWorkWithAddress sha512 work minerAddress env fuel = some (.ok (some proof)))
    (hr : ConsensusRun scale s es s') :
    (s'.submitBlock scale proof submitted).1 = .ok true ↔ acceptedProofs c es = [] := by
  obtain ⟨state, hl, hchain, hheight, htarget⟩ := of_createWorkPackage hc
  obtain ⟨hpc, hph, -, hmeets⟩ := of_mineWorkWithAddress hm
  rw [hchain] at hpc
  obtain ⟨state', hl', -, hsame, -⟩ := chain_of_run hr hl
  constructor
  · intro hok
    by_contra hne
    obtain ⟨-, e, he⟩ | ⟨st, _, hst, ha, -, -⟩ := s'.submitBlock_cases scale proof submitted
    · rw [he] at hok
      cases hok
    · rw [hpc] at hst
      refine currentHeight_ne hr hl hne hst ?_
      have := ha.1.symm.trans (hph.trans hheight)
      simpa using this
  · intro hnone
    rw [hsame hnone] at hl'
    obtain ⟨hn, -⟩ | ⟨_, _, -, -, -, he⟩ := s'.submitBlock_cases scale proof submitted
    · have ha : Accepts state proof := ⟨hph.trans hheight, work.target, htarget, hmeets⟩
      exact absurd ha (hn state (by rwa [hpc]))
    · rw [he]

/-- A hash function that always yields the number one, which meets every target. -/
def oneHash : Sha512 := fun _ ↦ ⟨List.replicate 63 0 ++ [1], rfl⟩

/-- The package for the first block of a new chain. -/
def firstPackage : WorkPackage where
  workId := List.replicate 63 0 ++ [1]
  chainId := 0
  blockHeight := 1
  blockHash := List.replicate 64 1
  parentHash := List.replicate 64 2
  merkleRoot := List.replicate 64 3
  timestamp := 15
  difficulty := 1_000_000
  target := WorkPackage.shiftedTarget 45
  version := 1
  extraNonce := 0

/-- The engine hands it out. -/
theorem createWorkPackage_first :
    (withChain .default).createWorkPackage oneHash 0 (List.replicate 64 1)
      (List.replicate 64 2) (List.replicate 64 3) 15 = .ok firstPackage := rfl

/-- Two miners of the first block: the second one is too late. -/
theorem submitBlock_mined_iff_late :
    ∃ proof, mineWorkWithAddress oneHash firstPackage [7] ⟨fun _ ↦ none, 30⟩ 1 =
        some (.ok (some proof)) ∧
      let winner := firstProof (List.replicate 64 0)
      let after := ((withChain .default).perform exactScale (.submitBlock winner) 25).2
      ((after.submitBlock exactScale proof 40).1 = .ok true ↔
        acceptedProofs 0 [⟨.submitBlock winner, 25, .ok true⟩] = []) := by
  obtain ⟨proof, hm⟩ : ∃ proof, mineWorkWithAddress oneHash firstPackage [7]
      ⟨fun _ ↦ none, 30⟩ 1 = some (.ok (some proof)) := ⟨_, rfl⟩
  refine ⟨proof, hm, submitBlock_mined_iff createWorkPackage_first hm ?_⟩
  exact .snoc .nil ⟨rfl, by decide +kernel⟩

/-! ### A chain is never stuck -/

/-- What lets a chain go on: its number is valid and its difficulty is not zero. -/
def Workable (s : PoWConsensus) : Prop :=
  ∀ c state, s.chainStates.lookup c = some state → c < 20 ∧ state.currentDifficulty ≠ 0

/-- With bounds above zero, retargeting keeps the difficulty above zero. -/
theorem retarget_ne_zero {scale : ScaleDifficulty} {config : PoWConfig}
    (hmin : config.minDifficulty ≠ 0) (hmax : config.maxDifficulty ≠ 0) {state state' : ChainState}
    {now : U64} (h : state.currentDifficulty ≠ 0)
    (hr : state.retarget scale config now = .ok state') : state'.currentDifficulty ≠ 0 := by
  unfold ChainState.retarget adjustDifficultyKadenaStyle at hr
  dsimp only at hr
  have hclamp (d : U64) :
      Word.smaller (Word.larger d config.minDifficulty) config.maxDifficulty ≠ 0 := by
    intro hz
    have hz := congrArg BitVec.toNat hz
    rw [Word.toNat_smaller, Word.toNat_larger] at hz
    have := BitVec.toNat_pos_of_ne_zero hmin
    have := BitVec.toNat_pos_of_ne_zero hmax
    rw [show (0 : U64).toNat = 0 from rfl] at hz
    omega
  repeat' split at hr
  all_goals cases hr
  · exact h
  · exact h
  · exact hclamp _
  · exact h

section Progress

variable {scale : ScaleDifficulty} {config : PoWConfig}

/-- With bounds above zero, every call keeps all chains workable. -/
theorem workable_step (hmin : config.minDifficulty ≠ 0) (hmax : config.maxDifficulty ≠ 0)
    {s : PoWConsensus} (hs : s.config = config) (h : Workable s) (call : Call) (now : U64) :
    Workable (s.perform scale call now).2 := by
  unfold perform
  cases call with
  | initializeChain chainId =>
    have hlt : chainId < 20 ∨ ∃ e, s.initializeChain chainId now = (.error e, s) := by
      by_cases hlt : 20 ≤ chainId
      · exact .inr ⟨_, if_pos hlt⟩
      · exact .inl (BitVec.not_le.mp hlt)
    obtain ⟨e, he⟩ | ⟨-, he⟩ := s.initializeChain_cases chainId now
    · simp only [he]
      exact h
    · obtain hlt | ⟨e, he'⟩ := hlt
      · simp only [he]
        have hnew : (1_000_000 : U64) ≠ 0 := by decide
        exact Table.forall_lookup_insert ⟨hlt, hnew⟩ fun c state _ hl ↦ h c state hl
      · rw [he] at he'
        cases he'
  | submitBlock proof =>
    obtain ⟨-, e, he⟩ | ⟨state, state', hl, -, hr, he⟩ := s.submitBlock_cases scale proof now
    · simp only [he]
      exact h
    · simp only [he]
      rw [hs] at hr
      obtain ⟨hlt, hd⟩ := h _ _ hl
      have hd' : (state.extend proof now).currentDifficulty ≠ 0 := hd
      exact Table.forall_lookup_insert ⟨hlt, retarget_ne_zero hmin hmax hd' hr⟩
        fun c state _ hl ↦ h c state hl

/-- With bounds above zero, all chains stay workable in every run. -/
theorem workable_of_run (hmin : config.minDifficulty ≠ 0) (hmax : config.maxDifficulty ≠ 0)
    {es : List Event} {s : PoWConsensus} (hr : ConsensusRun scale (.new config) es s) :
    Workable s := by
  have h : s.config = config ∧ Workable s := by
    refine hr.invariant (fun s ↦ s.config = config ∧ Workable s) ?_ ?_
    · exact ⟨rfl, fun _ _ hl ↦ (nomatch hl)⟩
    rintro s e s' ⟨hs, hw⟩ ⟨he, -⟩
    have hs' : s' = (s.perform scale e.call e.now).2 := by rw [he]
    rw [hs', config_perform]
    exact ⟨hs, workable_step hmin hmax hs hw _ _⟩
  exact h.2

/-- What an accepted block leaves: the chain is one block higher, and its newest record is
that of the proof. -/
structure Extended (c : U32) (state : ChainState) (proof : WorkProof) (s' : PoWConsensus) :
    Prop where
  height : ∃ state', s'.chainStates.lookup c = some state' ∧
    state'.currentHeight = state.currentHeight + 1
  newest : ∃ record, s'.getBlockHistory c 1 = [record] ∧ record.height = proof.blockHeight ∧
    record.hash = proof.hashResult ∧ record.minerAddress = proof.minerAddress ∧
    record.nonce = proof.nonce

/-- A proof that the chain accepts extends it. -/
theorem extended_of_accepts {s : PoWConsensus} {c : U32} {state : ChainState} {proof : WorkProof}
    (hl : s.chainStates.lookup c = some state) (hc : proof.chainId = c)
    (ha : Accepts state proof) (now : U64) :
    ∃ s', s.submitBlock scale proof now = (.ok true, s') ∧ Extended c state proof s' := by
  subst hc
  obtain ⟨hn, -⟩ | ⟨st, state', hst, -, hr, he⟩ := s.submitBlock_cases scale proof now
  · exact absurd ha (hn state hl)
  · cases hl.symm.trans hst
    obtain ⟨_, hr', hheight, -⟩ := (state.extend proof now).retarget_ok scale s.config now
    cases hr.symm.trans hr'
    refine ⟨_, he, ⟨state', Finmap.lookup_insert _, hheight⟩,
      ⟨proof.chainId, proof.blockHeight, proof.hashResult, now, state'.currentDifficulty,
        proof.minerAddress, proof.nonce⟩, ?_, rfl, rfl, rfl, rfl⟩
    change ((s.blockHistory ++ [_]).filter _).reverse.take 1 = _
    rw [List.filter_append, List.filter_singleton, beq_self_eq_true, cond_true,
      List.reverse_append]
    rfl

/-- With bounds above zero, no chain is ever stuck: in every run, each chain hands out a
package, and as soon as some hash of its search order meets the target, the miner that is left
alone finds a proof that extends the chain. -/
theorem progress_of_run (hmin : config.minDifficulty ≠ 0) (hmax : config.maxDifficulty ≠ 0)
    {es : List Event} {s : PoWConsensus} (hr : ConsensusRun scale (.new config) es s) {c : U32}
    {state : ChainState} (hl : s.chainStates.lookup c = some state) (sha512 : Sha512)
    {blockHash parentHash merkleRoot : Bytes} (hb : blockHash.length = 64)
    (hp : parentHash.length = 64) (hm : merkleRoot.length = 64) (created : U64) :
    ∃ work, s.createWorkPackage sha512 c blockHash parentHash merkleRoot created = .ok work ∧
      ∀ minerAddress n now submitted, minerAddress ≠ [] → FirstHit sha512 work n →
        ∃ proof s', mineWorkWithAddress sha512 work minerAddress ⟨fun _ ↦ none, now⟩ (n + 1) =
            some (.ok (some proof)) ∧
          s.submitBlock scale proof submitted = (.ok true, s') ∧ Extended c state proof s' := by
  obtain ⟨hlt, hd⟩ := workable_of_run hmin hmax hr c state hl
  obtain ⟨work, hnew⟩ := new_eq_ok sha512 hlt (state.currentHeight + 1) hb hp hm created hd
  have hcreate : s.createWorkPackage sha512 c blockHash parentHash merkleRoot created =
      .ok work := by
    rw [createWorkPackage, getChainState, hl]
    exact hnew
  refine ⟨work, hcreate, fun minerAddress n now submitted ha hfirst ↦ ?_⟩
  -- The search ends at the first hit, with a proof, because the address is not empty.
  obtain ⟨d, -, hbuild⟩ :=
    Search.buildProof_eq sha512 work ⟨fun _ ↦ none, now⟩ ha (attempt n)
  have hmine : mineWorkWithAddress sha512 work minerAddress ⟨fun _ ↦ none, now⟩ (n + 1) = _ :=
    mineWorkWithAddress_of_firstHit minerAddress rfl hfirst
  rw [hbuild] at hmine
  obtain ⟨hpc, hph, -, hmeets⟩ := of_mineWorkWithAddress hmine
  obtain ⟨hchain, hheight⟩ := chain_of_new hnew
  have haccepts : Accepts state _ :=
    ⟨hph.trans hheight, work.target, (WorkPackage.of_new hnew).2.2, hmeets⟩
  obtain ⟨s', hs', hext⟩ := extended_of_accepts hl (hpc.trans hchain) haccepts submitted
  exact ⟨_, s', hmine, hs', hext⟩

end Progress

/-- The first block of a new chain, with hashes that meet every target. -/
theorem progress_of_run_first :
    ∃ work, (withChain .default).createWorkPackage oneHash 0 (List.replicate 64 1)
        (List.replicate 64 2) (List.replicate 64 3) 15 = .ok work ∧
      ∀ minerAddress n now submitted, minerAddress ≠ [] → FirstHit oneHash work n →
        ∃ proof s', mineWorkWithAddress oneHash work minerAddress ⟨fun _ ↦ none, now⟩ (n + 1) =
            some (.ok (some proof)) ∧
          (withChain .default).submitBlock exactScale proof submitted = (.ok true, s') ∧
          Extended 0 (.new 0 10) proof s' :=
  progress_of_run (by decide) (by decide) (withChain_run .default) (Finmap.lookup_insert _)
    oneHash rfl rfl rfl 15

end SilverPow.Consensus
