import SilverPow.Work.Package

/-!
# The block validator

`src/block_validator.rs`: the check that a proof belongs to a header, meets the header's
difficulty, and is the hash of the header with the nonces.
-/

namespace SilverPow.Work

open SilverPow.Base

/-- `BlockHeader`, `src/block_validator.rs:11–21`. -/
structure BlockHeader where
  version : U32
  parentHash : Bytes
  merkleRoot : Bytes
  timestamp : U64
  difficulty : U64
  chainId : U32
  blockHeight : U64
  nonce : U64
  extraNonce : U64

/-- `BlockHeader::get_header_for_hashing`, `src/block_validator.rs:57–67`. -/
def BlockHeader.getHeaderForHashing (header : BlockHeader) : Bytes :=
  headerForHashing header.version header.parentHash header.merkleRoot header.timestamp
    header.difficulty header.chainId header.blockHeight

namespace BlockValidator

/-- `BlockValidator::calculate_target_from_difficulty`, `src/block_validator.rs:176–217`. -/
def calculateTargetFromDifficulty (difficulty : U64) : Except PoWError Bytes :=
  if difficulty = 0 then .error (.invalidDifficulty "Difficulty cannot be zero")
  else .ok (leadingZeroTarget (log2Floor difficulty))

/-- `BlockValidator::validate_proof_of_work`, `src/block_validator.rs:128–169`. -/
def validateProofOfWork (sha512 : Sha512) (header : BlockHeader) (proof : WorkProof) :
    Except PoWError Bool :=
  if proof.nonce ≠ header.nonce ∨ proof.extraNonce ≠ header.extraNonce then
    .error (.invalidBlock "Nonce mismatch")
  else if proof.chainId ≠ header.chainId then .error (.invalidBlock "Chain ID mismatch")
  else if proof.blockHeight ≠ header.blockHeight then
    .error (.invalidBlock "Block height mismatch")
  else do
    let target ← calculateTargetFromDifficulty header.difficulty
    if sliceLe proof.hashResult target = false then .error .workProofVerificationFailed
    else
      let calculatedHash :=
        (sha512 (hashInput header.getHeaderForHashing header.nonce header.extraNonce)).bytes
      if calculatedHash ≠ proof.hashResult then .error .workProofVerificationFailed
      else .ok true

/-- `BlockValidator::validate_difficulty_adjustment`, `src/block_validator.rs:251–275`. -/
def validateDifficultyAdjustment (previousDifficulty currentDifficulty : U64) :
    Except PoWError Unit :=
  let maxIncrease := Word.saturatingMul previousDifficulty 4
  let minDecrease := previousDifficulty / 4
  let change := s!"{previousDifficulty.toNat} -> {currentDifficulty.toNat}"
  if maxIncrease < currentDifficulty then
    .error (.invalidBlock s!"Difficulty increase too large: {change}")
  else if currentDifficulty < minDecrease then
    .error (.invalidBlock s!"Difficulty decrease too large: {change}")
  else .ok ()

/-- A target of the validator is that of a difficulty above zero. -/
theorem calculateTargetFromDifficulty_eq_ok {difficulty : U64} {target : Bytes}
    (h : calculateTargetFromDifficulty difficulty = .ok target) :
    difficulty ≠ 0 ∧ leadingZeroTarget (log2Floor difficulty) = target := by
  unfold calculateTargetFromDifficulty at h
  split at h
  · cases h
  · next h0 => exact ⟨h0, Except.ok.inj h⟩

/-- A change of the difficulty passes exactly when it is within a factor of four; that the
factor saturates makes no difference. -/
theorem validateDifficultyAdjustment_eq_ok_iff {previousDifficulty currentDifficulty : U64} :
    validateDifficultyAdjustment previousDifficulty currentDifficulty = .ok () ↔
      previousDifficulty.toNat / 4 ≤ currentDifficulty.toNat ∧
        currentDifficulty.toNat ≤ 4 * previousDifficulty.toNat := by
  have hlt := currentDifficulty.isLt
  have hmax : Word.saturatingMul previousDifficulty 4 < currentDifficulty ↔
      4 * previousDifficulty.toNat < currentDifficulty.toNat := by
    rw [BitVec.lt_def, Word.toNat_saturatingMul, show (4 : U64).toNat = 4 from rfl]
    omega
  have hmin : currentDifficulty < previousDifficulty / 4 ↔
      currentDifficulty.toNat < previousDifficulty.toNat / 4 := by
    rw [BitVec.lt_def, BitVec.toNat_udiv]
    rfl
  unfold validateDifficultyAdjustment
  simp only [hmax, hmin]
  split
  · next h => exact iff_of_false (nomatch ·) fun hle ↦ by omega
  · split
    · next h => exact iff_of_false (nomatch ·) fun hle ↦ by omega
    · next h h' => exact iff_of_true rfl ⟨by omega, by omega⟩

/-- A proof with the nonces, chain, height and hash of a header is accepted exactly when
its hash has the leading zero bits of the header's difficulty. -/
theorem validateProofOfWork_eq_ok_iff {sha512 : Sha512} {header : BlockHeader}
    {proof : WorkProof} (hd : header.difficulty ≠ 0) (hn : proof.nonce = header.nonce)
    (he : proof.extraNonce = header.extraNonce) (hc : proof.chainId = header.chainId)
    (hb : proof.blockHeight = header.blockHeight)
    (hh : proof.hashResult =
      (sha512 (hashInput header.getHeaderForHashing header.nonce header.extraNonce)).bytes) :
    validateProofOfWork sha512 header proof = .ok true ↔
      log2Floor header.difficulty ≤ leadingZeroBits proof.hashResult := by
  have hl : proof.hashResult.length = 64 := by rw [hh, Digest.length_eq]
  rw [← sliceLe_leadingZeroTarget_log2Floor hl, validateProofOfWork,
    if_neg (by simp [hn, he]), if_neg (not_not.mpr hc), if_neg (not_not.mpr hb),
    calculateTargetFromDifficulty, if_neg hd, ← hh]
  cases hs : sliceLe proof.hashResult (leadingZeroTarget (log2Floor header.difficulty)) <;>
    simp [bind, Except.bind, hs]

end BlockValidator
end SilverPow.Work
