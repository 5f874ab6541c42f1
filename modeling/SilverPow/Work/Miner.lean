import SilverPow.Work.Package

/-!
# The mining loop

`src/miner.rs`: a miner tries the pairs of nonces in order until a hash meets the target
of its package. Every million hashes it reads the current work and gives up when that is
another package. The loop may run forever, so it takes fuel; the statistics that it
writes and never reads are left out.
-/

namespace SilverPow.Work

open SilverPow.Base

/-- What a run of the miner reads from outside: the current work at each of its checks,
and the clock when it builds the proof. -/
structure MinerEnv where
  currentWork : Nat → Option WorkPackage
  now : U64

/-- The variables of the loop, with the number of checks of the current work so far. -/
structure Search where
  nonce : U64
  extraNonce : U64
  hashesSinceWorkCheck : U64
  checks : Nat

namespace Search

/-- The variables before the first attempt, `src/miner.rs:128–130`. -/
def start : Search := ⟨0, 0, 0, 0⟩

/-- The current work is due to be checked after this attempt, `src/miner.rs:221`. -/
def checksWork (s : Search) : Bool := 1_000_000 ≤ s.hashesSinceWorkCheck + 1

/-- The variables after an attempt that missed, `src/miner.rs:142–222`. -/
def next (s : Search) : Search where
  nonce := s.nonce + 1
  extraNonce := if s.nonce + 1 = 0 then s.extraNonce + 1 else s.extraNonce
  hashesSinceWorkCheck := if s.checksWork then 0 else s.hashesSinceWorkCheck + 1
  checks := if s.checksWork then s.checks + 1 else s.checks

/-- The current work is checked after this attempt and is another package,
`src/miner.rs:221–229`. -/
def switched (env : MinerEnv) (work : WorkPackage) (s : Search) : Bool :=
  s.checksWork && ((env.currentWork s.checks).any fun newWork ↦ newWork.workId != work.workId)

/-- The hash of the attempt, `src/miner.rs:135–140`. -/
def hashResult (sha512 : Sha512) (work : WorkPackage) (s : Search) : Bytes :=
  (sha512 (hashInput work.getHeaderForHashing s.nonce s.extraNonce)).bytes

/-- The hash of the attempt meets the target of the package, `src/miner.rs:147`. -/
def meetsTarget (sha512 : Sha512) (work : WorkPackage) (s : Search) : Bool :=
  sliceLe (s.hashResult sha512 work) work.target

/-- The builder filled in from the attempt, `src/miner.rs:151–169`. -/
def proofBuilder (sha512 : Sha512) (work : WorkPackage) (minerAddress : Bytes) (env : MinerEnv)
    (s : Search) : WorkProofBuilderPow :=
  { WorkProof.builder work.workId work.chainId work.blockHash (s.hashResult sha512 work)
      minerAddress env.now with
    blockHeight := work.blockHeight
    nonce := s.nonce
    extraNonce := s.extraNonce
    timestamp := env.now }

/-- The proof built from the attempt, `src/miner.rs:170–177`. -/
def buildProof (sha512 : Sha512) (work : WorkPackage) (minerAddress : Bytes) (env : MinerEnv)
    (s : Search) : Except PoWError WorkProof :=
  (s.proofBuilder sha512 work minerAddress env).build

end Search

/-- The loop of `Miner::mine_work_with_address`, `src/miner.rs:133–241`; `none` when the
fuel is used up. -/
def mineLoop (sha512 : Sha512) (work : WorkPackage) (minerAddress : Bytes) (env : MinerEnv) :
    Nat → Search → Option (Except PoWError (Option WorkProof))
  | 0, _ => none
  | fuel + 1, s =>
    if s.meetsTarget sha512 work then
      some ((s.buildProof sha512 work minerAddress env).map some)
    else if s.switched env work then some (.ok none)
    else mineLoop sha512 work minerAddress env fuel s.next

/-- `Miner::mine_work_with_address`, `src/miner.rs:115–242`. -/
def mineWorkWithAddress (sha512 : Sha512) (work : WorkPackage) (minerAddress : Bytes)
    (env : MinerEnv) (fuel : Nat) : Option (Except PoWError (Option WorkProof)) :=
  mineLoop sha512 work minerAddress env fuel .start

/-- The attempt with the given number, counted from zero. -/
def attempt : Nat → Search
  | 0 => .start
  | k + 1 => (attempt k).next

/-- The attempt is the first in search order whose hash meets the package's target. -/
def FirstHit (sha512 : Sha512) (work : WorkPackage) (k : Nat) : Prop :=
  (attempt k).meetsTarget sha512 work = true ∧
    ∀ j < k, (attempt j).meetsTarget sha512 work = false

section Loop

variable {sha512 : Sha512} {work : WorkPackage} {minerAddress : Bytes} {env : MinerEnv}

/-- With an address, the proof of an attempt is built with the fields of the package and of
the attempt. -/
theorem Search.buildProof_eq (sha512 : Sha512) (work : WorkPackage) (env : MinerEnv)
    (ha : minerAddress ≠ []) (s : Search) :
    ∃ d, WorkProof.getDifficultyFromHash (s.hashResult sha512 work) = .ok d ∧
      s.buildProof sha512 work minerAddress env = .ok ⟨work.workId, work.chainId,
        work.blockHeight, s.nonce, s.extraNonce, work.blockHash, s.hashResult sha512 work, env.now,
        minerAddress, d⟩ :=
  (s.proofBuilder sha512 work minerAddress env).of_build (Digest.length_eq _) ha

/-- The attempt that ends the loop, from any attempt on: the first that meets the target, or
one after which the current work is found to be another package. -/
theorem mineLoop_eq_some {fuel k : Nat} {result : Except PoWError (Option WorkProof)}
    (hk : ∀ j < k, (attempt j).meetsTarget sha512 work = false)
    (h : mineLoop sha512 work minerAddress env fuel (attempt k) = some result) :
    ∃ n < k + fuel, (∀ j < n, (attempt j).meetsTarget sha512 work = false) ∧
      ((attempt n).meetsTarget sha512 work = true ∧
          result = ((attempt n).buildProof sha512 work minerAddress env).map some ∨
        (attempt n).switched env work = true ∧ result = .ok none) := by
  induction fuel generalizing k with
  | zero => cases h
  | succ fuel ih =>
    rw [mineLoop] at h
    split at h
    · next hm => exact ⟨k, by omega, hk, .inl ⟨hm, (Option.some.inj h).symm⟩⟩
    · next hm =>
      split at h
      · next hs => exact ⟨k, by omega, hk, .inr ⟨hs, (Option.some.inj h).symm⟩⟩
      · have hk' : ∀ j < k + 1, (attempt j).meetsTarget sha512 work = false := by
          intro j hj
          obtain hlt | rfl := Nat.lt_succ_iff_lt_or_eq.mp hj
          · exact hk j hlt
          · exact Bool.eq_false_iff.mpr hm
        obtain ⟨n, hn, hend⟩ := ih (k := k + 1) hk' h
        exact ⟨n, by omega, hend⟩

/-- A proof that the miner returns is built from the first attempt that meets the target. -/
theorem exists_lt_of_mineWorkWithAddress {fuel : Nat} {proof : WorkProof}
    (h : mineWorkWithAddress sha512 work minerAddress env fuel = some (.ok (some proof))) :
    ∃ n < fuel, FirstHit sha512 work n ∧
      (attempt n).buildProof sha512 work minerAddress env = .ok proof := by
  obtain ⟨n, hn, hmiss, ⟨hm, hr⟩ | ⟨-, hr⟩⟩ :=
    mineLoop_eq_some (k := 0) (fun _ hj ↦ absurd hj (Nat.not_lt_zero _)) h
  · refine ⟨n, by omega, ⟨hm, hmiss⟩, ?_⟩
    cases hb : (attempt n).buildProof sha512 work minerAddress env with
    | error e =>
      rw [hb] at hr
      cases hr
    | ok p =>
      rw [hb] at hr
      cases hr
      rfl
  · cases hr

theorem firstHit_of_mineWorkWithAddress {fuel : Nat} {proof : WorkProof}
    (h : mineWorkWithAddress sha512 work minerAddress env fuel = some (.ok (some proof))) :
    ∃ n, FirstHit sha512 work n ∧
      (attempt n).buildProof sha512 work minerAddress env = .ok proof := by
  obtain ⟨n, -, hn⟩ := exists_lt_of_mineWorkWithAddress h
  exact ⟨n, hn⟩

/-- Without other work to read, the loop reaches the first attempt that meets the target. -/
private theorem mineLoop_of_firstHit (minerAddress : Bytes)
    (hw : env.currentWork = fun _ ↦ none) {k : Nat} (n : Nat) (h : FirstHit sha512 work (k + n)) :
    mineLoop sha512 work minerAddress env (n + 1) (attempt k) =
      some (((attempt (k + n)).buildProof sha512 work minerAddress env).map some) := by
  induction n generalizing k with
  | zero =>
    rw [Nat.add_zero] at h
    rw [mineLoop, if_pos h.1]
    rfl
  | succ n ih =>
    have hm := h.2 k (by omega)
    have hs : (attempt k).switched env work = false := by simp [Search.switched, hw]
    rw [mineLoop, if_neg (by simp [hm]), if_neg (by simp [hs])]
    have hi := ih (k := k + 1) (by rwa [Nat.add_right_comm])
    rwa [Nat.add_right_comm] at hi

/-- Without other work to read and with enough fuel, the miner returns the proof of the
first attempt that meets the target. -/
theorem mineWorkWithAddress_of_firstHit (minerAddress : Bytes)
    (hw : env.currentWork = fun _ ↦ none) {n : Nat} (h : FirstHit sha512 work n) :
    mineWorkWithAddress sha512 work minerAddress env (n + 1) =
      some (((attempt n).buildProof sha512 work minerAddress env).map some) := by
  rw [← Nat.zero_add n] at h
  have := mineLoop_of_firstHit minerAddress hw n h
  rwa [Nat.zero_add] at this

end Loop

end SilverPow.Work
