import SilverPow.Work.Validator

/-!
# Which headers share a proof of work

`validate_header` checks every field of fixed size and neither of the two hashes, whose bytes
stand one after the other in what is hashed. A piece of the Merkle root that is moved to the
end of the parent hash leaves those bytes as they are, so the same proof serves both headers;
the builder of headers, which asks for 32 bytes in each hash, makes no two such headers.
-/

namespace SilverPow.Work

open SilverPow.Base

/-- `BlockValidator::validate_header`, `src/block_validator.rs:81–125`; `now` is the clock. -/
def BlockValidator.validateHeader (config : PoWConfig) (now : U64) (header : BlockHeader) :
    Except PoWError Unit :=
  if header.difficulty < config.minDifficulty then
    .error (.invalidBlock s!"Difficulty {header.difficulty.toNat} below minimum")
  else if config.maxDifficulty < header.difficulty then
    .error (.invalidBlock s!"Difficulty {header.difficulty.toNat} exceeds maximum")
  else if now + 7200 < header.timestamp then
    .error (.invalidBlock "Block timestamp too far in future")
  else if 20 ≤ header.chainId then .error (.invalidBlock "Invalid chain ID")
  else if header.version = 0 then .error (.invalidBlock "Invalid block version")
  else .ok ()

/-- `BlockHeaderBuilderValidator`, `src/block_validator.rs:398–408`; the `with_` functions set
one field. -/
structure BlockHeaderBuilderValidator where
  version : U32
  parentHash : Bytes
  merkleRoot : Bytes
  timestamp : U64
  difficulty : U64
  chainId : U32
  blockHeight : U64
  nonce : U64
  extraNonce : U64

/-- `BlockHeader::builder`, `src/block_validator.rs:24–41`. -/
def BlockHeader.builder (version : U32) (parentHash merkleRoot : Bytes) (timestamp : U64) :
    BlockHeaderBuilderValidator :=
  ⟨version, parentHash, merkleRoot, timestamp, 1, 0, 0, 0, 0⟩

/-- `BlockHeaderBuilderValidator::build`, `src/block_validator.rs:436–466`. -/
def BlockHeaderBuilderValidator.build (b : BlockHeaderBuilderValidator) :
    Except PoWError BlockHeader :=
  if b.parentHash.length ≠ 32 then .error (.invalidBlock "Invalid parent hash length")
  else if b.merkleRoot.length ≠ 32 then .error (.invalidBlock "Invalid merkle root length")
  else if b.difficulty = 0 then .error (.invalidBlock "Difficulty cannot be zero")
  else
    .ok ⟨b.version, b.parentHash, b.merkleRoot, b.timestamp, b.difficulty, b.chainId,
      b.blockHeight, b.nonce, b.extraNonce⟩

/-- A header that a validator lets through at some time. -/
structure ValidHeader (config : PoWConfig) where
  header : BlockHeader
  now : U64
  validateHeader_eq : BlockValidator.validateHeader config now header = .ok ()

namespace BlockHeader

/-- The bytes whose hash `validate_proof_of_work` compares with the proof's,
`src/block_validator.rs:152–158`. -/
def powPreimage (header : BlockHeader) : Bytes :=
  hashInput header.getHeaderForHashing header.nonce header.extraNonce

/-- The header with a piece of bytes at the end of its parent hash that `header` has at the
front of its Merkle root; the other fields are the same. -/
def Moved (piece : Bytes) (header header' : BlockHeader) : Prop :=
  header.merkleRoot = piece ++ header'.merkleRoot ∧
    header' = { header with
      parentHash := header.parentHash ++ piece, merkleRoot := header'.merkleRoot }

/-- What is hashed behind the two hashes. -/
theorem suffixCode_words :
    SuffixCode fun words : U64 × U64 × U32 × U64 × U64 × U64 ↦
      leBytes 8 words.1.toNat ++ (leBytes 8 words.2.1.toNat ++ (leBytes 4 words.2.2.1.toNat ++
        (leBytes 8 words.2.2.2.1.toNat ++ (leBytes 8 words.2.2.2.2.1.toNat ++
          leBytes 8 words.2.2.2.2.2.toNat)))) :=
  have word : SuffixCode fun x : U64 ↦ leBytes 8 x.toNat := suffixCode_leBytes (by rfl)
  word.append (word.append ((suffixCode_leBytes (n := 4) (by rfl)).append
    (word.append (word.append word))))

/-- Headers share what is hashed exactly when their words are the same and their two hashes
are the same one after the other. -/
theorem powPreimage_eq_iff {header header' : BlockHeader} :
    header.powPreimage = header'.powPreimage ↔
      header.parentHash ++ header.merkleRoot = header'.parentHash ++ header'.merkleRoot ∧
        header' = { header with
          parentHash := header'.parentHash, merkleRoot := header'.merkleRoot } := by
  obtain ⟨version, parentHash, merkleRoot, timestamp, difficulty, chainId, height, nonce, extra⟩ :=
    header
  obtain ⟨version', parentHash', merkleRoot', timestamp', difficulty', chainId', height', nonce',
    extra'⟩ := header'
  simp only [powPreimage, hashInput, getHeaderForHashing, headerForHashing]
  constructor
  · intro h
    have hends := @suffixCode_words (leBytes 4 version.toNat ++ (parentHash ++ merkleRoot))
      (leBytes 4 version'.toNat ++ (parentHash' ++ merkleRoot'))
      (timestamp, difficulty, chainId, height, nonce, extra)
      (timestamp', difficulty', chainId', height', nonce', extra')
      (by simpa only [List.append_assoc] using h)
    obtain ⟨hfront, hwords⟩ := hends
    obtain ⟨hversion, hhashes⟩ := List.append_inj hfront (by rw [length_leBytes, length_leBytes])
    simp only [Prod.mk.injEq] at hwords
    obtain ⟨rfl, rfl, rfl, rfl, rfl, rfl⟩ := hwords
    rw [leBytes_injective (w := 32) rfl hversion]
    exact ⟨hhashes, rfl⟩
  · rintro ⟨hhashes, hfields⟩
    cases hfields
    rw [List.append_assoc (leBytes 4 _) parentHash, hhashes, ← List.append_assoc]

/-- They share it exactly when one arises from the other by moving a piece. -/
theorem powPreimage_eq_iff_moved {header header' : BlockHeader} :
    header.powPreimage = header'.powPreimage ↔
      ∃ piece, Moved piece header header' ∨ Moved piece header' header := by
  rw [powPreimage_eq_iff, List.append_eq_append_iff]
  constructor
  · rintro ⟨⟨piece, hparent, hroot⟩ | ⟨piece, hparent, hroot⟩, hfields⟩
    · exact ⟨piece, .inl ⟨hroot, by rw [← hparent]; exact hfields⟩⟩
    · exact ⟨piece, .inr ⟨hroot, by rw [hfields, ← hparent]⟩⟩
  · rintro ⟨piece, ⟨hroot, hfields⟩ | ⟨hroot, hfields⟩⟩
    · exact ⟨.inl ⟨piece, by rw [hfields], hroot⟩, by rw [hfields]⟩
    · exact ⟨.inr ⟨piece, by rw [hfields], hroot⟩, by rw [hfields]⟩

/-- Where nothing is moved, the headers are the same. -/
theorem moved_nil_iff {header header' : BlockHeader} :
    Moved [] header header' ↔ header = header' := by
  constructor
  · rintro ⟨hroot, hfields⟩
    rw [hfields, List.append_nil, ← List.nil_append header'.merkleRoot, ← hroot]
  · rintro rfl
    exact ⟨rfl, by rw [List.append_nil]⟩

theorem length_parentHash_of_moved {piece : Bytes} {header header' : BlockHeader}
    (h : Moved piece header header') :
    header'.parentHash.length = header.parentHash.length + piece.length := by
  rw [h.2, List.length_append]

/-- What is moved is at least a byte, or the headers are the same. -/
theorem ne_of_moved {piece : Bytes} {header header' : BlockHeader} (hp : piece ≠ [])
    (h : Moved piece header header') : header ≠ header' := by
  rintro rfl
  exact hp (List.append_cancel_right (h.1.symm.trans (List.nil_append _).symm))

/-- Some bytes stand at the front of the Merkle root of one of the headers, and at the end of
the parent hash of the other. -/
def SharesHashes (header header' : BlockHeader) : Prop :=
  ∃ piece ≠ [], Moved piece header header' ∨ Moved piece header' header

/-- Two headers share what is hashed for no other reason than a moved piece. -/
theorem powPreimage_unique_iff (header header' : BlockHeader) :
    (header.powPreimage = header'.powPreimage → header = header') ↔
      ¬ SharesHashes header header' := by
  rw [powPreimage_eq_iff_moved]
  constructor
  · rintro h ⟨piece, hp, hmoved⟩
    have heq := h ⟨piece, hmoved⟩
    rcases hmoved with hmoved | hmoved
    · exact ne_of_moved hp hmoved heq
    · exact ne_of_moved hp hmoved heq.symm
  · rintro h ⟨piece, hmoved⟩
    by_cases hp : piece = []
    · subst hp
      rcases hmoved with hmoved | hmoved
      · exact moved_nil_iff.mp hmoved
      · exact (moved_nil_iff.mp hmoved).symm
    · exact absurd ⟨piece, hp, hmoved⟩ h

end BlockHeader

section Validation

variable {config : PoWConfig} {now : U64}

open BlockHeader

/-- The validator does not look at the hashes. -/
theorem BlockValidator.validateHeader_of_moved {piece : Bytes} {header header' : BlockHeader}
    (h : Moved piece header header') :
    validateHeader config now header' = validateHeader config now header := by
  rw [h.2]
  rfl

/-- A proof that is accepted for a header is accepted for the other. -/
theorem BlockValidator.validateProofOfWork_of_moved {sha512 : Sha512} {piece : Bytes}
    {header header' : BlockHeader} {proof : WorkProof} (h : Moved piece header header') :
    validateProofOfWork sha512 header' proof = validateProofOfWork sha512 header proof := by
  have hpre : hashInput header.getHeaderForHashing header.nonce header.extraNonce =
      hashInput header'.getHeaderForHashing header'.nonce header'.extraNonce :=
    powPreimage_eq_iff_moved.mpr ⟨piece, .inl h⟩
  unfold validateProofOfWork
  rw [hpre, h.2]

/-- Two headers that the validator lets through and that share what is hashed are the same,
unless a piece of bytes is moved between their hashes. -/
theorem validHeader_preimage_unique_iff (valid valid' : ValidHeader config) :
    (valid.header.powPreimage = valid'.header.powPreimage → valid.header = valid'.header) ↔
      ¬ SharesHashes valid.header valid'.header :=
  powPreimage_unique_iff valid.header valid'.header

/-- Headers from the builder have hashes of one size, between which nothing can be moved. -/
theorem BlockHeaderBuilderValidator.powPreimage_injective {b b' : BlockHeaderBuilderValidator}
    {header header' : BlockHeader} (h : b.build = .ok header) (h' : b'.build = .ok header')
    (hpre : header.powPreimage = header'.powPreimage) : header = header' := by
  have hlength {b : BlockHeaderBuilderValidator} {header : BlockHeader}
      (h : b.build = .ok header) : header.parentHash.length = 32 := by
    unfold build at h
    split at h
    · cases h
    · next hp =>
      repeat' split at h
      all_goals cases h
      exact not_not.mp hp
  refine (powPreimage_unique_iff header header').mpr ?_ hpre
  rintro ⟨piece, hp, hmoved | hmoved⟩
  · have hl := length_parentHash_of_moved hmoved
    rw [hlength h, hlength h'] at hl
    exact hp (List.eq_nil_of_length_eq_zero (by omega))
  · have hl := length_parentHash_of_moved hmoved
    rw [hlength h, hlength h'] at hl
    exact hp (List.eq_nil_of_length_eq_zero (by omega))

/-- A header that the builder makes, and the same with a byte moved. -/
def builtHeader : BlockHeader :=
  ⟨1, List.replicate 32 1, List.replicate 32 2, 1000, 1_000_000, 0, 100, 7, 0⟩

def movedHeader : BlockHeader :=
  { builtHeader with
    parentHash := List.replicate 32 1 ++ [2], merkleRoot := List.replicate 31 2 }

/-- Both headers are let through, and what is hashed is the same. -/
theorem powPreimage_builtHeader_movedHeader :
    BlockValidator.validateHeader .default 1000 builtHeader = .ok () ∧
      BlockValidator.validateHeader .default 1000 movedHeader = .ok () ∧
      builtHeader.powPreimage = movedHeader.powPreimage ∧
      builtHeader.parentHash ≠ movedHeader.parentHash := by
  have hmoved : Moved [2] builtHeader movedHeader := ⟨rfl, rfl⟩
  have hvalid : BlockValidator.validateHeader .default 1000 builtHeader = .ok () := by rfl
  refine ⟨hvalid, ?_, powPreimage_eq_iff_moved.mpr ⟨[2], .inl hmoved⟩, by decide⟩
  rw [BlockValidator.validateHeader_of_moved hmoved, hvalid]

end Validation
end SilverPow.Work
