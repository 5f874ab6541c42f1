import SilverPow.Work.Miner
import SilverPow.Work.Validator

/-!
# The miner's target and the validator's

The miner's target clears low bytes and keeps the high ones at `0xFF`, and the validator
wants leading zero bits. They accept the same proofs only where the first hash that meets
the miner's target happens to start with enough zero bits; for all hash functions, only at
difficulty one.
-/

namespace SilverPow.Work

open SilverPow.Base BlockValidator

/-- The block header that carries the fields of a package, with the given nonces. -/
def WorkPackage.headerWith (work : WorkPackage) (nonce extraNonce : U64) : BlockHeader where
  version := work.version
  parentHash := work.parentHash
  merkleRoot := work.merkleRoot
  timestamp := work.timestamp
  difficulty := work.difficulty
  chainId := work.chainId
  blockHeight := work.blockHeight
  nonce
  extraNonce

/-- Every proof that the miner returns for the package is accepted by the validator. -/
def Agrees (sha512 : Sha512) (work : WorkPackage) (minerAddress : Bytes) : Prop :=
  ∀ env fuel proof,
    mineWorkWithAddress sha512 work minerAddress env fuel = some (.ok (some proof)) →
    validateProofOfWork sha512 (work.headerWith proof.nonce proof.extraNonce) proof = .ok true

/-- The first hash that meets the miner's target starts with the zero bits that the
validator wants. -/
def FirstHitMeetsValidator (sha512 : Sha512) (work : WorkPackage) : Prop :=
  ∀ k, FirstHit sha512 work k →
    log2Floor work.difficulty ≤ leadingZeroBits ((attempt k).hashResult sha512 work)

section

variable {sha512 : Sha512} {work : WorkPackage} {minerAddress : Bytes} {env : MinerEnv}

/-- The validator accepts the proof built from an attempt exactly when its hash has the
leading zero bits of the difficulty. -/
theorem validateProofOfWork_buildProof (hd : work.difficulty ≠ 0) (ha : minerAddress ≠ [])
    {s : Search} {proof : WorkProof}
    (h : s.buildProof sha512 work minerAddress env = .ok proof) :
    validateProofOfWork sha512 (work.headerWith proof.nonce proof.extraNonce) proof = .ok true ↔
      log2Floor work.difficulty ≤ leadingZeroBits (s.hashResult sha512 work) := by
  obtain ⟨d, -, hb⟩ := s.buildProof_eq sha512 work env ha
  cases h.symm.trans hb
  exact validateProofOfWork_eq_ok_iff hd rfl rfl rfl rfl rfl

/-- For one hash function and package, miner and validator agree exactly when the first
hash that meets the miner's target satisfies the validator. -/
theorem agrees_iff_firstHit (hd : work.difficulty ≠ 0) (ha : minerAddress ≠ []) :
    Agrees sha512 work minerAddress ↔ FirstHitMeetsValidator sha512 work := by
  constructor
  · intro h k hk
    let env : MinerEnv := ⟨fun _ ↦ none, 0⟩
    obtain ⟨d, -, hb⟩ := (attempt k).buildProof_eq sha512 work env ha
    have hm := mineWorkWithAddress_of_firstHit minerAddress (show env.currentWork = _ from rfl) hk
    rw [hb] at hm
    exact (validateProofOfWork_buildProof hd ha hb).mp (h _ _ _ hm)
  · intro h env fuel proof hp
    obtain ⟨k, hk, hb⟩ := firstHit_of_mineWorkWithAddress hp
    exact (validateProofOfWork_buildProof hd ha hb).mpr (h k hk)

end

/-- Above difficulty one, a hash function that always yields the miner's target is accepted
by the miner at once and never by the validator. -/
theorem not_firstHitMeetsValidator {work : WorkPackage} (hd : 1 < work.difficulty)
    (ht : WorkPackage.calculateTargetFromDifficulty work.difficulty = .ok work.target)
    {digest : Digest} (hdig : digest.bytes = work.target) :
    ¬FirstHitMeetsValidator (fun _ ↦ digest) work := by
  have hne : work.difficulty ≠ 0 := Word.ne_zero_of_lt hd
  obtain ⟨target, htarget, -, hhead⟩ :=
    WorkPackage.calculateTargetFromDifficulty_of_ne_zero hne
  cases Except.ok.inj (htarget.symm.trans ht)
  intro h
  have hres : (attempt 0).hashResult (fun _ ↦ digest) work = work.target := hdig
  have hhit : FirstHit (fun _ ↦ digest) work 0 :=
    ⟨by rw [Search.meetsTarget, hres, sliceLe_refl], fun _ hj ↦ absurd hj (Nat.not_lt_zero _)⟩
  have hle := h 0 hhit
  have hlog : 0 < log2Floor work.difficulty :=
    (Nat.le_log2 (BitVec.toNat_pos_of_ne_zero hne).ne').mpr (BitVec.lt_def.mp hd)
  -- The first byte of the target is `0xFF`.
  have hz : leadingZeroBits work.target = 0 := by
    obtain ⟨bs, hbs⟩ := List.head?_eq_some_iff.mp (hhead hd)
    rw [hbs]
    rfl
  rw [hres, hz] at hle
  omega

/-- For a package that was built, miner and validator agree exactly when the first hash
that meets the miner's target satisfies the validator; whatever the hash function, exactly
at difficulty one. -/
theorem agrees_iff {sha512 : Sha512} {chainId : U32} {blockHeight : U64}
    {blockHash parentHash merkleRoot : Bytes} {timestamp difficulty : U64} {work : WorkPackage}
    {minerAddress : Bytes}
    (hnew : WorkPackage.new sha512 chainId blockHeight blockHash parentHash merkleRoot timestamp
      difficulty = .ok work)
    (ha : minerAddress ≠ []) :
    (Agrees sha512 work minerAddress ↔ FirstHitMeetsValidator sha512 work) ∧
    ((∀ sha512 work minerAddress,
        WorkPackage.new sha512 chainId blockHeight blockHash parentHash merkleRoot timestamp
          difficulty = .ok work →
        minerAddress ≠ [] → Agrees sha512 work minerAddress) ↔ difficulty = 1) := by
  obtain ⟨hwd, hd, -⟩ := WorkPackage.of_new hnew
  refine ⟨agrees_iff_firstHit (by rwa [hwd]) ha, ?_, ?_⟩
  · intro h
    by_contra h1
    have hgt : 1 < difficulty := by
      rw [BitVec.lt_def]
      have h0 : 0 < difficulty.toNat := BitVec.toNat_pos_of_ne_zero hd
      have h1' : difficulty.toNat ≠ 1 := fun hn ↦ h1 (BitVec.eq_of_toNat_eq hn)
      rw [show (1 : U64).toNat = 1 from rfl]
      omega
    obtain ⟨target, ht, hlen, -⟩ := WorkPackage.calculateTargetFromDifficulty_of_ne_zero hd
    -- The hash function that always yields the target.
    obtain ⟨work', hnew'⟩ := WorkPackage.new_of_new hnew fun _ ↦ ⟨target, hlen⟩
    obtain ⟨hwd', -, ht'⟩ := WorkPackage.of_new hnew'
    have hagree := h _ _ _ hnew' ha
    rw [agrees_iff_firstHit (by rwa [hwd']) ha] at hagree
    cases Except.ok.inj (ht.symm.trans ht')
    rw [← hwd'] at hgt ht'
    exact not_firstHitMeetsValidator hgt ht' rfl hagree
  · rintro rfl sha512' work' address hnew' ha'
    obtain ⟨hwd', -, -⟩ := WorkPackage.of_new hnew'
    rw [agrees_iff_firstHit (by rwa [hwd']) ha']
    intro k _
    rw [hwd']
    exact Nat.zero_le _

/-- A hash function that always yields 64 bytes `0xF0`. -/
def constantHash : Sha512 := fun _ ↦ ⟨List.replicate 64 0xF0, rfl⟩

/-- A package of difficulty one. -/
def unitPackage : WorkPackage where
  workId := List.replicate 64 0xF0
  chainId := 0
  blockHeight := 1
  blockHash := List.replicate 64 1
  parentHash := List.replicate 64 2
  merkleRoot := List.replicate 64 3
  timestamp := 1000
  difficulty := 1
  target := List.replicate 64 0xFF
  version := 1
  extraNonce := 0

/-- At difficulty one, both sides hold. -/
theorem agrees_iff_unit :
    (Agrees constantHash unitPackage [7] ↔ FirstHitMeetsValidator constantHash unitPackage) ∧
    ((∀ sha512 work minerAddress,
        WorkPackage.new sha512 0 1 (List.replicate 64 1) (List.replicate 64 2)
          (List.replicate 64 3) 1000 1 = .ok work →
        minerAddress ≠ [] → Agrees sha512 work minerAddress) ↔ (1 : U64) = 1) :=
  agrees_iff (show WorkPackage.new constantHash 0 1 (List.replicate 64 1) (List.replicate 64 2)
    (List.replicate 64 3) 1000 1 = .ok unitPackage from rfl) (by decide)

/-- At the default difficulty, the miner returns a proof with a hash of bytes `0xF0` at its
first attempt, and the validator rejects it. -/
theorem miner_proof_rejected :
    ∃ work proof,
      WorkPackage.new constantHash 0 1 (List.replicate 64 1) (List.replicate 64 2)
        (List.replicate 64 3) 1000 1_000_000 = .ok work ∧
      mineWorkWithAddress constantHash work [7] ⟨fun _ ↦ none, 0⟩ 1 = some (.ok (some proof)) ∧
      validateProofOfWork constantHash (work.headerWith proof.nonce proof.extraNonce) proof =
        .error .workProofVerificationFailed :=
  ⟨_, _, rfl, rfl, rfl⟩

end SilverPow.Work
