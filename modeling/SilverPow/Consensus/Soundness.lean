import SilverPow.Consensus.Chains
import SilverPow.Work.Validator

/-!
# What an accepted block proves

The block validator recomputes the hash of a proof from its header. `submit_block` only
compares the submitted hash with a target, as byte strings of any length, so that it
accepts proofs that are no hash of a header as soon as a chain can accept anything.
-/

namespace SilverPow.Consensus

open SilverPow.Base SilverPow.Work PoWConsensus

/-- The hash of the proof is the hash of a header with the proof's chain, height and nonces
and the current difficulty of the chain. -/
def HashedFromHeader (sha512 : Sha512) (s : PoWConsensus) (proof : WorkProof) : Prop :=
  ∃ (header : BlockHeader) (state : ChainState),
    s.chainStates.lookup proof.chainId = some state ∧
    header.difficulty = state.currentDifficulty ∧ header.chainId = proof.chainId ∧
    header.blockHeight = proof.blockHeight ∧ header.nonce = proof.nonce ∧
    header.extraNonce = proof.extraNonce ∧
    proof.hashResult =
      (sha512 (hashInput header.getHeaderForHashing header.nonce header.extraNonce)).bytes

/-- A hash that is not 64 bytes long is not the hash of a header. -/
theorem not_hashedFromHeader {sha512 : Sha512} {s : PoWConsensus} {proof : WorkProof}
    (h : proof.hashResult.length ≠ 64) : ¬HashedFromHeader sha512 s proof := by
  rintro ⟨header, state, -, -, -, -, -, -, hh⟩
  rw [hh] at h
  exact h (Digest.length_eq _)

/-- A chain whose difficulty is zero accepts no proof. -/
theorem not_accepts_of_zero {state : ChainState} (h : state.currentDifficulty = 0)
    (proof : WorkProof) : ¬Accepts state proof := by
  rintro ⟨-, target, ht, -⟩
  rw [h] at ht
  cases ht

/-- A chain whose difficulty is not zero accepts the empty hash for its next height. -/
theorem accepts_empty_hash {state : ChainState} (h : state.currentDifficulty ≠ 0)
    {proof : WorkProof} (hb : proof.blockHeight = state.currentHeight + 1)
    (he : proof.hashResult = []) : Accepts state proof := by
  obtain ⟨target, ht, -⟩ := WorkPackage.calculateTargetFromDifficulty_of_ne_zero h
  exact ⟨hb, target, ht, by rw [he]; rfl⟩

/-- A proof of an empty hash for the next block of a chain. -/
def emptyProof (chainId : U32) (blockHeight : U64) : WorkProof :=
  { firstProof [] with chainId, blockHeight }

/-- Every accepted proof is the hash of a matching header exactly when no chain can accept
anything: every chain has difficulty zero. -/
theorem accepted_hashed_iff (sha512 : Sha512) (scale : ScaleDifficulty) (s : PoWConsensus) :
    (∀ proof now, (s.submitBlock scale proof now).1 = .ok true →
      HashedFromHeader sha512 s proof) ↔
    ∀ c state, s.chainStates.lookup c = some state → state.currentDifficulty = 0 := by
  constructor
  · intro h c state hl
    by_contra hd
    let proof := emptyProof c (state.currentHeight + 1)
    obtain ⟨hn, -⟩ | ⟨_, _, -, -, -, he⟩ := s.submitBlock_cases scale proof 0
    · exact hn state hl (accepts_empty_hash hd rfl rfl)
    · have hlen : proof.hashResult.length ≠ 64 := show ([] : Bytes).length ≠ 64 by decide
      exact not_hashedFromHeader hlen (h proof 0 (by rw [he]))
  · intro h proof now hok
    obtain ⟨-, e, he⟩ | ⟨state, _, hl, ha, -, -⟩ := s.submitBlock_cases scale proof now
    · rw [he] at hok
      cases hok
    · exact absurd ha (not_accepts_of_zero (h _ state hl) proof)

/-- On a new chain of the default configuration, the proof of an empty hash is accepted,
and no hash function yields it. -/
theorem empty_hash_accepted :
    ConsensusRun exactScale (.new .default) [⟨.initializeChain 0, 10, .ok true⟩]
        (withChain .default) ∧
      ((withChain .default).submitBlock exactScale (emptyProof 0 1) 40).1 = .ok true ∧
      ∀ sha512, ¬HashedFromHeader sha512 (withChain .default) (emptyProof 0 1) :=
  ⟨withChain_run _, rfl, fun _ ↦ not_hashedFromHeader (by decide)⟩

end SilverPow.Consensus
