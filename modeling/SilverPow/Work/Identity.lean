import SilverPow.Work.Package

/-!
# What a work identifier identifies

`WorkPackage::new` hashes the chain, the height, the block hash and the timestamp into the
`work_id`, and `src/miner.rs:220–229` takes a package with the identifier it is mining for the
package it is mining. The header that is mined has the timestamp, the chain and the height in
it as well, but neither of its hashes nor the difficulty is part of the identifier.
-/

namespace SilverPow.Work

open SilverPow.Base

namespace WorkPackage

/-- The bytes hashed into the `work_id`, `src/work.rs:66–71`. -/
def idInput (work : WorkPackage) : Bytes :=
  leBytes 4 work.chainId.toNat ++ leBytes 8 work.blockHeight.toNat ++ work.blockHash ++
    leBytes 8 work.timestamp.toNat

/-- What `new` guarantees of the package it returns. -/
structure WellFormed (sha512 : Sha512) (work : WorkPackage) : Prop where
  workId_eq : work.workId = (sha512 work.idInput).bytes
  length_blockHash : work.blockHash.length = 64
  length_parentHash : work.parentHash.length = 64
  length_merkleRoot : work.merkleRoot.length = 64
  target_eq : calculateTargetFromDifficulty work.difficulty = .ok work.target
  version_eq : work.version = 1

/-- A package that is built is well formed. -/
theorem wellFormed_of_new {sha512 : Sha512} {chainId : U32} {blockHeight : U64}
    {blockHash parentHash merkleRoot : Bytes} {timestamp difficulty : U64} {work : WorkPackage}
    (h : new sha512 chainId blockHeight blockHash parentHash merkleRoot timestamp difficulty =
      .ok work) : WellFormed sha512 work := by
  unfold new at h
  split at h
  · cases h
  next hd =>
  obtain ⟨target, ht, -⟩ := calculateTargetFromDifficulty_of_ne_zero hd
  rw [ht] at h
  repeat' split at h
  all_goals cases h
  next hblock hparent hroot =>
  exact
    { workId_eq := rfl
      length_blockHash := not_not.mp hblock
      length_parentHash := not_not.mp hparent
      length_merkleRoot := not_not.mp hroot
      target_eq := ht
      version_eq := rfl }

/-- Two packages share what is hashed into the identifier exactly when they agree on the four
fields it covers. -/
theorem idInput_eq_iff {work work' : WorkPackage}
    (h : work.blockHash.length = work'.blockHash.length) :
    work.idInput = work'.idInput ↔
      work.chainId = work'.chainId ∧ work.blockHeight = work'.blockHeight ∧
        work.blockHash = work'.blockHash ∧ work.timestamp = work'.timestamp := by
  constructor
  · intro hid
    simp only [idInput, List.append_assoc] at hid
    obtain ⟨hchain, hid⟩ := List.append_inj hid (by simp only [length_leBytes])
    obtain ⟨hheight, hid⟩ := List.append_inj hid (by simp only [length_leBytes])
    obtain ⟨hblock, htime⟩ := List.append_inj hid h
    exact ⟨leBytes_injective (w := 32) (by rfl) hchain,
      leBytes_injective (w := 64) (by rfl) hheight, hblock,
      leBytes_injective (w := 64) (by rfl) htime⟩
  · rintro ⟨hchain, hheight, hblock, htime⟩
    rw [idInput, idInput, hchain, hheight, hblock, htime]

/-- Two packages with hashes of the same lengths have the same header exactly when they agree
on each of its fields. -/
theorem getHeaderForHashing_eq_iff {work work' : WorkPackage}
    (hp : work.parentHash.length = work'.parentHash.length)
    (hm : work.merkleRoot.length = work'.merkleRoot.length) :
    work.getHeaderForHashing = work'.getHeaderForHashing ↔
      work.version = work'.version ∧ work.parentHash = work'.parentHash ∧
        work.merkleRoot = work'.merkleRoot ∧ work.timestamp = work'.timestamp ∧
        work.difficulty = work'.difficulty ∧ work.chainId = work'.chainId ∧
        work.blockHeight = work'.blockHeight := by
  constructor
  · intro h
    simp only [getHeaderForHashing, headerForHashing, List.append_assoc] at h
    obtain ⟨hversion, h⟩ := List.append_inj h (by simp only [length_leBytes])
    obtain ⟨hparent, h⟩ := List.append_inj h hp
    obtain ⟨hroot, h⟩ := List.append_inj h hm
    obtain ⟨htime, h⟩ := List.append_inj h (by simp only [length_leBytes])
    obtain ⟨hdifficulty, h⟩ := List.append_inj h (by simp only [length_leBytes])
    obtain ⟨hchain, hheight⟩ := List.append_inj h (by simp only [length_leBytes])
    exact ⟨leBytes_injective (w := 32) (by rfl) hversion, hparent, hroot,
      leBytes_injective (w := 64) (by rfl) htime,
      leBytes_injective (w := 64) (by rfl) hdifficulty,
      leBytes_injective (w := 32) (by rfl) hchain,
      leBytes_injective (w := 64) (by rfl) hheight⟩
  · rintro ⟨hversion, hparent, hroot, htime, hdifficulty, hchain, hheight⟩
    rw [getHeaderForHashing, getHeaderForHashing, hversion, hparent, hroot, htime, hdifficulty,
      hchain, hheight]

/-- What is mined: the header and the target it is compared with. -/
def SameWork (work work' : WorkPackage) : Prop :=
  work.getHeaderForHashing = work'.getHeaderForHashing ∧ work.target = work'.target

/-- The fields that the identifier covers. -/
def SameIdFields (work work' : WorkPackage) : Prop :=
  work.chainId = work'.chainId ∧ work.blockHeight = work'.blockHeight ∧
    work.blockHash = work'.blockHash ∧ work.timestamp = work'.timestamp

/-- The fields of the header that the identifier does not cover. -/
def SameUncoveredFields (work work' : WorkPackage) : Prop :=
  work.parentHash = work'.parentHash ∧ work.merkleRoot = work'.merkleRoot ∧
    work.difficulty = work'.difficulty

/-- Where the fields of the identifier agree, the work is the same exactly when the others
agree too. -/
theorem sameWork_iff {sha512 : Sha512} {work work' : WorkPackage} (h : WellFormed sha512 work)
    (h' : WellFormed sha512 work') (hid : SameIdFields work work') :
    SameWork work work' ↔ SameUncoveredFields work work' := by
  obtain ⟨hchain, hheight, -, htime⟩ := hid
  have hp : work.parentHash.length = work'.parentHash.length := by
    rw [h.length_parentHash, h'.length_parentHash]
  have hm : work.merkleRoot.length = work'.merkleRoot.length := by
    rw [h.length_merkleRoot, h'.length_merkleRoot]
  rw [SameWork, getHeaderForHashing_eq_iff hp hm]
  constructor
  · rintro ⟨⟨-, hparent, hroot, -, hdifficulty, -⟩, -⟩
    exact ⟨hparent, hroot, hdifficulty⟩
  · rintro ⟨hparent, hroot, hdifficulty⟩
    have htarget := h.target_eq
    rw [hdifficulty, h'.target_eq] at htarget
    refine ⟨⟨?_, hparent, hroot, htime, hdifficulty, hchain, hheight⟩,
      (Except.ok.inj htarget).symm⟩
    rw [h.version_eq, h'.version_eq]

/-- A package that `WorkPackage::new` returns. -/
structure Built (sha512 : Sha512) where
  work : WorkPackage
  chainId : U32
  blockHeight : U64
  blockHash : Bytes
  parentHash : Bytes
  merkleRoot : Bytes
  timestamp : U64
  difficulty : U64
  new_eq : new sha512 chainId blockHeight blockHash parentHash merkleRoot timestamp difficulty =
    .ok work

theorem Built.wellFormed {sha512 : Sha512} (built : Built sha512) :
    WellFormed sha512 built.work :=
  wellFormed_of_new built.new_eq

/-- The identifier of two packages identifies their work exactly when it tells them apart, or
they agree on the fields it does not cover. -/
theorem idInput_identifies_iff {sha512 : Sha512} (built built' : Built sha512) :
    (built.work.idInput = built'.work.idInput → SameWork built.work built'.work) ↔
      (¬ SameIdFields built.work built'.work ∨ SameUncoveredFields built.work built'.work) := by
  have h := built.wellFormed
  have h' := built'.wellFormed
  rw [idInput_eq_iff (by rw [h.length_blockHash, h'.length_blockHash]), ← SameIdFields]
  by_cases hid : SameIdFields built.work built'.work
  · simp [hid, sameWork_iff h h' hid]
  · simp [hid]

/-- With another Merkle root and another difficulty, a new package has the identifier of the
one before it. -/
theorem idInput_of_new_root :
    ∃ built built' : Built fun _ ↦ ⟨List.replicate 64 0xF0, List.length_replicate⟩,
      built.merkleRoot = List.replicate 64 2 ∧ built'.merkleRoot = List.replicate 64 3 ∧
        built.work.idInput = built'.work.idInput ∧ built.work.workId = built'.work.workId ∧
        built.work.getHeaderForHashing ≠ built'.work.getHeaderForHashing ∧
        built.work.target ≠ built'.work.target := by
  let hash : Bytes := List.replicate 64 1
  refine ⟨⟨_, 0, 100, hash, hash, List.replicate 64 2, 1000, 1, rfl⟩,
    ⟨_, 0, 100, hash, hash, List.replicate 64 3, 1000, 1024, rfl⟩, rfl, rfl, rfl, rfl, ?_, ?_⟩
  · decide +kernel
  · decide +kernel

end WorkPackage
end SilverPow.Work
