import SilverPow.Config
import SilverPow.Work.Target

/-!
# Work packages and proofs

`src/work.rs`: the package that a miner receives, its header bytes and target, and the
proof that the miner returns. The header bytes are those of the validator's block header
(`src/block_validator.rs`), which is a definition of its own with the same layout.
-/

namespace SilverPow.Work

open SilverPow.Base

/-- The layout that both `get_header_for_hashing` functions write. -/
def headerForHashing (version : U32) (parentHash merkleRoot : Bytes)
    (timestamp difficulty : U64) (chainId : U32) (blockHeight : U64) : Bytes :=
  leBytes 4 version.toNat ++ parentHash ++ merkleRoot ++ leBytes 8 timestamp.toNat ++
    leBytes 8 difficulty.toNat ++ leBytes 4 chainId.toNat ++ leBytes 8 blockHeight.toNat

/-- What is hashed for one pair of nonces. -/
def hashInput (header : Bytes) (nonce extraNonce : U64) : Bytes :=
  header ++ leBytes 8 nonce.toNat ++ leBytes 8 extraNonce.toNat

/-- `WorkPackage`, `src/work.rs:10–22`. -/
structure WorkPackage where
  workId : Bytes
  chainId : U32
  blockHeight : U64
  blockHash : Bytes
  parentHash : Bytes
  merkleRoot : Bytes
  timestamp : U64
  difficulty : U64
  target : Bytes
  version : U32
  extraNonce : U64

namespace WorkPackage

/-- The largest target after the adjustment for a difficulty above one,
`src/work.rs:104–131`. It clears and shifts the low end. -/
def shiftedTarget (bitsToShift : Nat) : Bytes :=
  let bytesToZero := bitsToShift / 8
  if bytesToZero < 64 then
    let target := List.replicate (64 - bytesToZero) 0xFF ++ List.replicate bytesToZero 0
    let bitShift := bitsToShift % 8
    if 0 < bytesToZero ∧ 0 < bitShift then
      target.modify (64 - bytesToZero - 1) (· >>> bitShift)
    else target
  else 1 :: List.replicate 63 0

/-- `WorkPackage::calculate_target_from_difficulty`, `src/work.rs:91–134`. -/
def calculateTargetFromDifficulty (difficulty : U64) : Except PoWError Bytes :=
  if difficulty = 0 then .error (.invalidDifficulty "Difficulty cannot be zero")
  else if 1 < difficulty then .ok (shiftedTarget (64 - log2Floor difficulty))
  else .ok (List.replicate 64 0xFF)

/-- `WorkPackage::new`, `src/work.rs:25–86`. -/
def new (sha512 : Sha512) (chainId : U32) (blockHeight : U64)
    (blockHash parentHash merkleRoot : Bytes) (timestamp difficulty : U64) :
    Except PoWError WorkPackage :=
  if difficulty = 0 then
    .error (.invalidDifficulty "Difficulty cannot be zero")
  else if 20 ≤ chainId then
    .error (.invalidDifficulty "Invalid chain ID")
  else if blockHash.length ≠ 64 then
    .error (.invalidDifficulty "Block hash must be 64 bytes (SHA-512)")
  else if parentHash.length ≠ 64 then
    .error (.invalidDifficulty "Parent hash must be 64 bytes (SHA-512)")
  else if merkleRoot.length ≠ 64 then
    .error (.invalidDifficulty "Merkle root must be 64 bytes (SHA-512)")
  else do
    let target ← calculateTargetFromDifficulty difficulty
    let workId := (sha512 (leBytes 4 chainId.toNat ++ leBytes 8 blockHeight.toNat ++ blockHash ++
      leBytes 8 timestamp.toNat)).bytes
    return ⟨workId, chainId, blockHeight, blockHash, parentHash, merkleRoot, timestamp,
      difficulty, target, 1, 0⟩

/-- `WorkPackage::get_header_for_hashing`, `src/work.rs:136–146`. -/
def getHeaderForHashing (work : WorkPackage) : Bytes :=
  headerForHashing work.version work.parentHash work.merkleRoot work.timestamp work.difficulty
    work.chainId work.blockHeight

end WorkPackage

/-- `WorkProof`, `src/work.rs:164–175`. -/
structure WorkProof where
  workId : Bytes
  chainId : U32
  blockHeight : U64
  nonce : U64
  extraNonce : U64
  blockHash : Bytes
  hashResult : Bytes
  timestamp : U64
  minerAddress : Bytes
  difficultyAchieved : U64

/-- `WorkProof::verify`, `src/work.rs:201–223`. -/
def WorkProof.verify (proof : WorkProof) (target : Bytes) : Except PoWError Bool :=
  if proof.hashResult.length ≠ 64 then .error .invalidWorkProof
  else if target.length ≠ 64 then .error .invalidWorkProof
  else .ok (sliceLe proof.hashResult target)

/-- `WorkProof::get_difficulty_from_hash`, `src/work.rs:225–248`. -/
def WorkProof.getDifficultyFromHash (hash : Bytes) : Except PoWError U64 :=
  if hash.length ≠ 64 then .error .invalidWorkProof
  else
    let leadingZeros := leadingZeroBits hash
    .ok (if 64 ≤ leadingZeros then BitVec.allOnes 64 else 1 <<< leadingZeros)

/-- `WorkProofBuilderPow`, `src/work.rs:435–445`; the `with_` functions set one field. -/
structure WorkProofBuilderPow where
  workId : Bytes
  chainId : U32
  blockHeight : U64
  nonce : U64
  extraNonce : U64
  blockHash : Bytes
  hashResult : Bytes
  timestamp : U64
  minerAddress : Bytes

/-- `WorkProof::builder`, `src/work.rs:178–199`. -/
def WorkProof.builder (workId : Bytes) (chainId : U32) (blockHash hashResult minerAddress : Bytes)
    (now : U64) : WorkProofBuilderPow :=
  ⟨workId, chainId, 0, 0, 0, blockHash, hashResult, now, minerAddress⟩

/-- `WorkProofBuilderPow::build`, `src/work.rs:468–491`. -/
def WorkProofBuilderPow.build (b : WorkProofBuilderPow) : Except PoWError WorkProof := do
  if b.hashResult.length ≠ 64 then throw .invalidWorkProof
  if b.minerAddress = [] then throw .invalidWorkProof
  let difficultyAchieved ← WorkProof.getDifficultyFromHash b.hashResult
  return ⟨b.workId, b.chainId, b.blockHeight, b.nonce, b.extraNonce, b.blockHash, b.hashResult,
    b.timestamp, b.minerAddress, difficultyAchieved⟩

/-! ### What the constructors guarantee -/

theorem WorkPackage.length_shiftedTarget (bitsToShift : Nat) :
    (shiftedTarget bitsToShift).length = 64 := by
  unfold shiftedTarget
  dsimp only
  split_ifs
  · rw [List.length_modify, List.length_append, List.length_replicate, List.length_replicate]
    omega
  · rw [List.length_append, List.length_replicate, List.length_replicate]
    omega
  · rfl

/-- A difficulty above zero has a target. -/
theorem WorkPackage.calculateTargetFromDifficulty_of_ne_zero {difficulty : U64}
    (h : difficulty ≠ 0) : ∃ target,
      calculateTargetFromDifficulty difficulty = .ok target ∧ target.length = 64 ∧
        (1 < difficulty → target.head? = some 0xFF) := by
  have hhead : ∀ l < 64, 0 < l → (shiftedTarget (64 - l)).head? = some 0xFF := by
    decide +kernel
  rw [calculateTargetFromDifficulty, if_neg h]
  by_cases h1 : 1 < difficulty
  · have hl : 0 < log2Floor difficulty :=
      (Nat.le_log2 (by rintro hz; simp [hz, BitVec.lt_def] at h1)).mpr h1
    exact ⟨_, if_pos h1, length_shiftedTarget _, fun _ ↦ hhead _ (log2Floor_lt difficulty) hl⟩
  · exact ⟨_, if_neg h1, List.length_replicate, fun h ↦ absurd h h1⟩

section New

variable {sha512 : Sha512} {chainId : U32} {blockHeight : U64}
  {blockHash parentHash merkleRoot : Bytes} {timestamp difficulty : U64} {work : WorkPackage}
  (h : WorkPackage.new sha512 chainId blockHeight blockHash parentHash merkleRoot timestamp
    difficulty = .ok work)
include h

/-- A package that was built has the given difficulty, above zero, and its target. -/
theorem WorkPackage.of_new :
    work.difficulty = difficulty ∧ difficulty ≠ 0 ∧
      calculateTargetFromDifficulty difficulty = .ok work.target := by
  unfold WorkPackage.new at h
  split at h
  · cases h
  · next hd =>
    obtain ⟨target, ht, -⟩ := calculateTargetFromDifficulty_of_ne_zero hd
    rw [ht] at h
    repeat' split at h
    all_goals cases h
    exact ⟨rfl, hd, ht⟩

/-- Whether a package is built does not depend on the hash function. -/
theorem WorkPackage.new_of_new (sha512' : Sha512) :
    ∃ work', WorkPackage.new sha512' chainId blockHeight blockHash parentHash merkleRoot timestamp
      difficulty = .ok work' := by
  unfold WorkPackage.new at h ⊢
  split at h
  · cases h
  · next hd =>
    obtain ⟨target, ht, -⟩ := calculateTargetFromDifficulty_of_ne_zero hd
    rw [ht] at h ⊢
    repeat' split at h
    all_goals cases h
    exact ⟨_, by simp only [*, if_false]; rfl⟩

end New

/-- A proof that was built copies the fields of its builder. -/
theorem WorkProofBuilderPow.of_build (b : WorkProofBuilderPow) (hh : b.hashResult.length = 64)
    (ha : b.minerAddress ≠ []) : ∃ d, WorkProof.getDifficultyFromHash b.hashResult = .ok d ∧
      b.build = .ok ⟨b.workId, b.chainId, b.blockHeight, b.nonce, b.extraNonce, b.blockHash,
        b.hashResult, b.timestamp, b.minerAddress, d⟩ := by
  have hd : WorkProof.getDifficultyFromHash b.hashResult = _ := if_neg (not_not.mpr hh)
  refine ⟨_, hd, ?_⟩
  rw [build, if_neg (not_not.mpr hh), if_neg ha, hd]
  rfl

end SilverPow.Work
