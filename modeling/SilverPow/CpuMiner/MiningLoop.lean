import SilverPow.CpuMiner.U512
import SilverPow.Stratum.Agreement

/-!
# The mining loop of the CPU miner

`src/bin/cpu_miner_real.rs:195–347`: a thread hashes the nonces that follow its start one
after the other, and submits those whose hash is at most the quotient of the largest number
by the pool difficulty. The quotient has 29 leading zero bits, as many as the pool asks for at
any difficulty up to that one.
-/

namespace SilverPow.CpuMiner

open SilverPow.Base SilverPow.Work SilverPow.Stratum

/-- The counters of `MiningStats`, `src/bin/cpu_miner_real.rs:152–160`. -/
structure MiningStats where
  sharesFound : U64
  validShares : U64
  invalidShares : U64
  blocksFound : U64
  hashesComputed : U64

/-- The arguments of `submit_share`. -/
structure ShareSubmission where
  jobId : String
  nonce : U64
  hashHex : String
  isBlock : Bool

/-- A thread: its nonce and its counters, with the nonces that it hashed and the shares that
it submitted so far. -/
structure MinerThread where
  nonce : U64
  stats : MiningStats
  tried : List U64
  submitted : List ShareSubmission

/-- What happens in one round of the loop: the connection is found lost and does not come
back, or the nonce is hashed; a share is answered by the pool. -/
inductive Round where
  | reconnectionFailed
  | hashes (answer : Except String Bool)

/-- `POOL_DIFFICULTY`, `src/bin/cpu_miner_real.rs:300`. -/
def poolDifficulty : U128 := 1_000_000_000

/-- `BLOCK_DIFFICULTY`, `src/bin/cpu_miner_real.rs:301`. -/
def blockDifficulty : U128 := 1_000_000_000

/-- `hash_u512 <= pool_target`, `src/bin/cpu_miner_real.rs:307`. -/
def isShare (hash : Digest) : Bool := (U512.fromBytes hash).le (U512.max.divU128 poolDifficulty)

/-- `is_block`, `src/bin/cpu_miner_real.rs:316`. -/
def isBlock (hash : Digest) : Bool := (U512.fromBytes hash).le (U512.max.divU128 blockDifficulty)

/-- `format!("\x7b:x\x7d", hash)`, `src/bin/cpu_miner_real.rs:275`. -/
def hashHex (hash : Digest) : String := Hex.base16.encode hash.bytes

/-- `job_id`, `src/bin/cpu_miner_real.rs:326`. -/
def jobId (nonce : U64) (hash : Digest) : String :=
  s!"{hexText nonce.toNat}_{String.ofList ((hashHex hash).toList.take 16)}"

/-- What the counters become when a share is submitted, `src/bin/cpu_miner_real.rs:308–341`. -/
def MiningStats.countShare (stats : MiningStats) (hash : Digest) (answer : Except String Bool) :
    MiningStats :=
  let stats := { stats with sharesFound := stats.sharesFound + 1 }
  let stats := if isBlock hash then { stats with blocksFound := stats.blocksFound + 1 } else stats
  match answer with
  | .ok true => { stats with validShares := stats.validShares + 1 }
  | .ok false => { stats with invalidShares := stats.invalidShares + 1 }
  | .error _ => stats

namespace MinerThread

/-- Where a thread starts, `src/bin/cpu_miner_real.rs:245`: `thread_id * (u64::MAX / 4)`. -/
def firstNonce (threadId : U64) : U64 := threadId * (BitVec.allOnes 64 / 4)

def start (threadId : U64) : MinerThread :=
  ⟨firstNonce threadId, ⟨0, 0, 0, 0, 0⟩, [], []⟩

/-- One round of the loop, `src/bin/cpu_miner_real.rs:249–346`. -/
def round (sha512 : Sha512) (thread : MinerThread) : Round → MinerThread
  | .reconnectionFailed => thread
  | .hashes answer =>
    let hash := sha512 (leBytes 8 thread.nonce.toNat)
    let stats := { thread.stats with hashesComputed := thread.stats.hashesComputed + 1 }
    { nonce := thread.nonce + 1
      stats := if isShare hash then stats.countShare hash answer else stats
      tried := thread.tried ++ [thread.nonce]
      submitted :=
        if isShare hash then
          thread.submitted ++
            [⟨jobId thread.nonce hash, thread.nonce, hashHex hash, isBlock hash⟩]
        else thread.submitted }

/-- `mining_loop` once it is connected. -/
def miningLoop (sha512 : Sha512) (threadId : U64) (rounds : List Round) : MinerThread :=
  rounds.foldl (round sha512) (start threadId)

end MinerThread

/-- The target of a share is the exact quotient. -/
theorem value_poolTarget :
    (U512.max.divU128 poolDifficulty).value = (2 ^ 512 - 1) / 1_000_000_000 := by
  decide +kernel

/-- A share is at most the quotient of the largest number by the difficulty. -/
theorem isShare_iff (hash : Digest) :
    isShare hash = true ↔ beNat hash.bytes ≤ (2 ^ 512 - 1) / 1_000_000_000 := by
  rw [isShare, U512.le_iff, U512.value_fromBytes, value_poolTarget]

/-- A share has 29 leading zero bits. -/
theorem le_leadingZeroBits_of_isShare {hash : Digest} (h : isShare hash = true) :
    29 ≤ leadingZeroBits hash.bytes := by
  rw [isShare_iff] at h
  rw [le_leadingZeroBits_iff (by rw [hash.length_eq]; omega), hash.length_eq]
  have hlt : (2 ^ 512 - 1) / 1_000_000_000 < 2 ^ (8 * 64 - 29) := by
    decide +kernel
  omega

/-- A difficulty up to the miner's asks for at most 29 zero bits. -/
theorem log2Floor_le_of_le {difficulty : U64} (h : difficulty ≤ 1_000_000_000) :
    log2Floor difficulty ≤ 29 := by
  have hlt : difficulty.toNat < 2 ^ 30 := Nat.lt_of_le_of_lt h (by decide)
  unfold log2Floor
  by_cases h0 : difficulty.toNat = 0
  · rw [h0]
    decide
  · exact Nat.le_of_lt_succ ((Nat.log2_lt h0).mpr hlt)

/-- `hex::decode` reads the lower-case text of a hash back. -/
def ReadsHex (c : Crates) : Prop :=
  ∀ bytes : Bytes, c.hexDecode (Hex.base16.encode bytes) = .ok bytes

theorem validateShareDifficulty_of_isShare {c : Crates} (hc : ReadsHex c) {hash : Digest}
    (h : isShare hash = true) {difficulty : U64} (hlog : c.LogFloor difficulty)
    (h0 : difficulty ≠ 0) (hle : difficulty ≤ 1_000_000_000) :
    PoolState.validateShareDifficulty c (hashHex hash) difficulty = true := by
  have hbits := (log2Floor_le_of_le hle).trans (le_leadingZeroBits_of_isShare h)
  rw [← hlog.zeroBits_eq] at hbits
  exact PoolState.validateShareDifficulty_iff.mpr
    ⟨hash.bytes, hc hash.bytes, hash.length_eq, h0, hbits⟩

/-- What the miner counts as a share, the pool accepts at every session difficulty up to the
miner's. -/
theorem pool_accepts_share {c : Crates} (hc : ReadsHex c) (hash : Digest) (difficulty : U64)
    (hlog : c.LogFloor difficulty) (h1 : 1 ≤ difficulty) (hle : difficulty ≤ 1_000_000_000)
    (hshare : isShare hash = true) :
    PoolState.validateShareDifficulty c (hashHex hash) difficulty = true :=
  validateShareDifficulty_of_isShare hc hshare hlog (Word.ne_zero_of_le (by decide) h1) hle

theorem readsHex_sampleCrates : ReadsHex sampleCrates := by
  intro bytes
  simp only [sampleCrates, Hex.base16_decode_encode, Option.elim]

theorem logFloor_sampleCrates (difficulty : U64) : sampleCrates.LogFloor difficulty := by
  have hlt := log2Floor_lt difficulty
  simp only [Crates.LogFloor, sampleCrates, BitVec.toNat_ofNat]
  exact Nat.mod_eq_of_lt (by omega)

/-- The hash without any set bit. -/
theorem pool_accepts_zero_hash :
    PoolState.validateShareDifficulty sampleCrates
      (hashHex (sampleCrates.sha512 [])) 1_000_000_000 = true :=
  pool_accepts_share readsHex_sampleCrates _ _ (logFloor_sampleCrates _) (by decide) (by decide)
    (by decide +kernel)

namespace MinerThread

variable (sha512 : Sha512)

theorem miningLoop_concat (threadId : U64) (rounds : List Round) (r : Round) :
    miningLoop sha512 threadId (rounds ++ [r]) =
      (miningLoop sha512 threadId rounds).round sha512 r :=
  List.foldl_concat ..

/-- Every share that a thread submits is the text of a hash below the target, and it is
submitted as a block. -/
theorem isShare_of_mem_submitted (threadId : U64) (rounds : List Round)
    {share : ShareSubmission} (h : share ∈ (miningLoop sha512 threadId rounds).submitted) :
    ∃ hash, share.hashHex = hashHex hash ∧ isShare hash = true ∧ share.isBlock = true := by
  induction rounds using List.reverseRecOn with
  | nil => cases h
  | append_singleton rounds r ih =>
    rw [miningLoop_concat] at h
    cases r with
    | reconnectionFailed => exact ih h
    | hashes answer =>
      simp only [round] at h
      split at h
      · next hshare =>
        rcases List.mem_append.mp h with h | h
        · exact ih h
        · rw [List.mem_singleton] at h
          subst h
          exact ⟨_, rfl, hshare, hshare⟩
      · exact ih h

/-- In no run does a thread submit a share that the pool finds too easy. -/
theorem pool_accepts_submitted {c : Crates} (hc : ReadsHex c) (threadId : U64)
    (rounds : List Round) {difficulty : U64} (hlog : c.LogFloor difficulty)
    (h0 : difficulty ≠ 0) (hle : difficulty ≤ 1_000_000_000) {share : ShareSubmission}
    (h : share ∈ (miningLoop sha512 threadId rounds).submitted) :
    PoolState.validateShareDifficulty c share.hashHex difficulty = true := by
  obtain ⟨hash, hhex, hshare, -⟩ := isShare_of_mem_submitted sha512 threadId rounds h
  rw [hhex]
  exact validateShareDifficulty_of_isShare hc hshare hlog h0 hle

end MinerThread
end SilverPow.CpuMiner
