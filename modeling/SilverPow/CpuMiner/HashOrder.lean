import SilverPow.CpuMiner.U512
import SilverPow.Stratum.Targets

/-!
# One order of hashes

The miner compares hashes as four words with the derived order, the pool, the validator and
`WorkProof::verify` compare them as slices of bytes. Both are the order of the big-endian values.
-/

namespace SilverPow.CpuMiner

open SilverPow.Base SilverPow.Work SilverPow.Stratum

namespace U512

/-- Different hashes have different words. -/
theorem fromBytes_inj {a b : Digest} (h : fromBytes a = fromBytes b) : a = b := by
  have hvalue : beNat a.bytes = beNat b.bytes := by
    rw [← value_fromBytes, ← value_fromBytes, h]
  have hlength : a.bytes.length = b.bytes.length := a.length_eq.trans b.length_eq.symm
  cases a
  cases b
  congr
  exact eq_of_beNat_eq hlength hvalue

/-- Words are compared like bytes. -/
theorem le_fromBytes (a b : Digest) : (fromBytes a).le (fromBytes b) = sliceLe a.bytes b.bytes := by
  rw [Bool.eq_iff_iff, le_iff, value_fromBytes, value_fromBytes,
    sliceLe_iff (a.length_eq.trans b.length_eq.symm)]

end U512

/-- What the miner decides for a hash and a target by their words, the proof, the pool and the
validator decide by their bytes. -/
structure SameComparison (a b : Digest) : Prop where
  value_iff : (U512.fromBytes a).le (U512.fromBytes b) = true ↔ beNat a.bytes ≤ beNat b.bytes
  bytes_eq : (U512.fromBytes a).le (U512.fromBytes b) = sliceLe a.bytes b.bytes
  verify_eq (proof : WorkProof) (hash : proof.hashResult = a.bytes) :
    proof.verify b.bytes = .ok ((U512.fromBytes a).le (U512.fromBytes b))
  pool_eq (c : Crates) (text : String) (difficulty : U64) (hash : c.hexDecode text = .ok a.bytes)
    (nonzero : difficulty ≠ 0) (target : leadingZeroTarget (c.log2 difficulty).toNat = b.bytes) :
    PoolState.validateShareDifficulty c text difficulty =
      (U512.fromBytes a).le (U512.fromBytes b)
  validator_iff (sha512 : Sha512) (header : BlockHeader) (proof : WorkProof)
    (nonce : proof.nonce = header.nonce) (extraNonce : proof.extraNonce = header.extraNonce)
    (chain : proof.chainId = header.chainId) (height : proof.blockHeight = header.blockHeight)
    (hash : proof.hashResult = a.bytes)
    (calculated : sha512 (hashInput header.getHeaderForHashing header.nonce header.extraNonce) = a)
    (target : BlockValidator.calculateTargetFromDifficulty header.difficulty = .ok b.bytes) :
    BlockValidator.validateProofOfWork sha512 header proof = .ok true ↔
      (U512.fromBytes a).le (U512.fromBytes b) = true

theorem sameComparison (a b : Digest) : SameComparison a b where
  value_iff := by rw [U512.le_iff, U512.value_fromBytes, U512.value_fromBytes]
  bytes_eq := U512.le_fromBytes a b
  verify_eq proof hash := by
    rw [WorkProof.verify, hash, if_neg (not_not.mpr a.length_eq), if_neg (not_not.mpr b.length_eq),
      U512.le_fromBytes]
  pool_eq c text difficulty hash nonzero target := by
    rw [PoolState.validateShareDifficulty_eq hash a.length_eq nonzero, target, U512.le_fromBytes]
  validator_iff sha512 header proof nonce extraNonce chain height hash calculated target := by
    obtain ⟨h0, htarget⟩ := BlockValidator.calculateTargetFromDifficulty_eq_ok target
    rw [BlockValidator.validateProofOfWork_eq_ok_iff h0 nonce extraNonce chain height
      (hash.trans (congrArg Digest.bytes calculated.symm)), hash,
      ← sliceLe_leadingZeroTarget_log2Floor a.length_eq, htarget, U512.le_fromBytes]

/-- The order of the words is the order of the hashes. -/
theorem word_order_is_hash_order :
    Function.Injective U512.fromBytes ∧
      (∀ hash : Digest, (U512.fromBytes hash).value = beNat hash.bytes) ∧
      ∀ a b : Digest, SameComparison a b :=
  ⟨fun _ _ ↦ U512.fromBytes_inj, U512.value_fromBytes, sameComparison⟩

end SilverPow.CpuMiner
