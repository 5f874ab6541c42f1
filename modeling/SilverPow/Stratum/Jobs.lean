import SilverPow.Stratum.Agreement
import SilverPow.Work.Package

/-!
# Job ids and the stale check

The producers of job ids write a number in front of the underscore in hexadecimal: the
server's broadcast the block height (`src/stratum.rs:453–471`), the CPU miner its nonce
(`src/bin/cpu_miner_real.rs:324–330`). The pool's `mining.submit` arm reads it as a decimal
height. Text with a letter reads as no height at all; text without one reads as a smaller
number as soon as it has two digits, and such a share is called stale.
-/

namespace SilverPow.Stratum

open SilverPow.Base SilverPow.Work

/-- A job id, with what its producer makes it of. -/
inductive Job where
  /-- `StratumServer::broadcast_work`, for the current work. -/
  | broadcast (work : WorkPackage)
  /-- `mining_loop` of the CPU miner, for a nonce and its hash. -/
  | found (nonce : U64) (hash : Digest)

namespace Job

/-- The job id: `src/stratum.rs:455–456`, `src/bin/cpu_miner_real.rs:326`. -/
def id (c : Crates) : Job → String
  | broadcast work => hexText work.blockHeight.toNat ++ "_" ++ c.hexEncode work.workId
  | found nonce hash =>
    hexText nonce.toNat ++ "_" ++ String.ofList ((hash.bytes.flatMap Hex.encodeByte).take 16)

/-- The job is for work at a height; the CPU miner's jobs name none. -/
def AtHeight (height : U64) : Job → Prop
  | broadcast work => work.blockHeight = height
  | found _ _ => True

end Job

/-- The number whose decimal digits are the hexadecimal digits of a number. -/
def decimalReading (n : Nat) : Nat := Nat.ofDigits 10 (Nat.digits 16 n)

/-- The hexadecimal text of a number has a letter. -/
def HasLetter (n : Nat) : Prop := ∃ d ∈ Nat.digits 16 n, 10 ≤ d

instance (n : Nat) : Decidable (HasLetter n) :=
  inferInstanceAs (Decidable (∃ d ∈ Nat.digits 16 n, 10 ≤ d))

/-- The jobs that the pool at a height takes for current ones. -/
def Job.ReadAsCurrent (height : U64) : Job → Prop
  | broadcast _ => height < 16 ∨ HasLetter height.toNat
  | found nonce _ =>
    nonce = 0 ∨ HasLetter nonce.toNat ∨ height.toNat ≤ decimalReading nonce.toNat

instance (height : U64) : (job : Job) → Decidable (job.ReadAsCurrent height)
  | .broadcast _ => inferInstanceAs (Decidable (_ ∨ _))
  | .found _ _ => inferInstanceAs (Decidable (_ ∨ _ ∨ _))

theorem not_hasLetter_iff {n : Nat} : ¬HasLetter n ↔ ∀ d ∈ Nat.digits 16 n, d < 10 := by
  simp only [HasLetter, not_exists, not_and, Nat.not_le]

theorem decimalReading_zero : decimalReading 0 = 0 := by
  rw [decimalReading, Nat.digits_zero, Nat.ofDigits_nil]

/-- One digit of the decimal reading. -/
theorem decimalReading_of_pos {n : Nat} (h : 0 < n) :
    decimalReading n = n % 16 + 10 * decimalReading (n / 16) := by
  rw [decimalReading, Nat.digits_def' (by omega) h, Nat.ofDigits_cons, decimalReading]

/-- A decimal reading is at most the number. -/
theorem decimalReading_le (n : Nat) : decimalReading n ≤ n := by
  have h := Nat.ofDigits_monotone (Nat.digits 16 n) (show 10 ≤ 16 by decide)
  rwa [Nat.ofDigits_digits] at h

/-- Only zero reads as zero. -/
theorem decimalReading_pos {n : Nat} (h : 0 < n) : 0 < decimalReading n := by
  induction n using Nat.strongRecOn with
  | ind n ih =>
    rw [decimalReading_of_pos h]
    by_cases hq : 0 < n / 16
    · have := ih _ (Nat.div_lt_self h (by omega)) hq
      omega
    · omega

/-- Text of one digit reads as the number, longer text as a smaller one. -/
theorem decimalReading_lt_iff {n : Nat} : decimalReading n < n ↔ 16 ≤ n := by
  rcases Nat.eq_zero_or_pos n with rfl | h
  · rw [decimalReading_zero]
    decide
  · have hq := decimalReading_le (n / 16)
    rw [decimalReading_of_pos h]
    by_cases hn : 16 ≤ n
    · omega
    · rw [Nat.div_eq_of_lt (by omega), decimalReading_zero]
      omega

/-- The text in front of the underscore of a job id that starts with hexadecimal text. -/
theorem takeWhile_hexText (n : Nat) (rest : String) :
    (hexText n ++ "_" ++ rest).toList.takeWhile (· ≠ '_') = Nat.toDigits 16 n := by
  have hdigit : ∀ ch ∈ Nat.toDigits 16 n, decide (ch ≠ '_') = true := by
    intro ch h
    obtain ⟨d, hd, rfl⟩ := exists_of_mem_toDigits h
    clear h
    revert d
    decide
  rw [String.toList_append, String.toList_append, hexText, String.toList_ofList,
    List.append_assoc, List.takeWhile_append_of_pos hdigit]
  exact List.append_nil _

/-- The height that the pool reads in a job id that starts with hexadecimal text. -/
theorem jobHeight_hexText (n : U64) (rest : String) :
    jobHeight (hexText n.toNat ++ "_" ++ rest) =
      if ∀ d ∈ Nat.digits 16 n.toNat, d < 10 then BitVec.ofNat 64 (decimalReading n.toNat)
      else 0 := by
  rw [jobHeight, takeWhile_hexText]
  have := parseU64_hexText (show 0 < 10 by decide) (by omega) n.isLt
  rw [hexText] at this
  rw [this]
  split
  · rfl
  · rfl

/-- When such a job id is stale. -/
theorem stale_hexText_iff {pool : PoolState} {n : U64} {rest : String} :
    Stale pool (hexText n.toNat ++ "_" ++ rest) ↔ n ≠ 0 ∧ ¬HasLetter n.toNat ∧
      decimalReading n.toNat < pool.currentWork.height.toNat := by
  have hn := decimalReading_le n.toNat
  have hlt := n.isLt
  have hzero : n ≠ 0 ↔ 0 < decimalReading n.toNat := by
    constructor
    · exact fun h ↦ decimalReading_pos (BitVec.toNat_pos_of_ne_zero h)
    · rintro h rfl
      exact absurd decimalReading_zero (Nat.ne_of_gt h)
  rw [Stale, jobHeight_hexText, not_hasLetter_iff, hzero]
  split
  · next hd =>
    rw [BitVec.lt_def, BitVec.lt_def, BitVec.toNat_ofNat, Nat.mod_eq_of_lt (by omega)]
    exact ⟨fun h ↦ ⟨h.1, hd, h.2⟩, fun h ↦ ⟨h.1, h.2.2⟩⟩
  · next hd =>
    -- The text has a letter, so the height that is read is zero.
    exact iff_of_false (fun h ↦ absurd h.1 (by decide)) fun h ↦ hd h.2.1

/-- The text of the error for a stale share, `src/stratum_pool.rs:1325–1326`. -/
def staleText (expected got : Nat) : String :=
  s!"Stale share: block height mismatch (expected {expected}, " ++ s!"got {got})"

/-- The error for a stale share is not the one for a session without authorization. -/
theorem staleText_ne (expected got : Nat) : staleText expected got ≠ "Not authorized" := by
  intro h
  unfold staleText at h
  have hl := congrArg String.length h
  simp only [String.length_append] at hl
  have ha : "Not authorized".length = 14 := rfl
  -- The first of the six parts is already longer.
  have hle := Nat.le_of_add_right_le (Nat.le_of_add_right_le (Nat.le_of_add_right_le
    (hl.trans ha).le))
  exact absurd hle (by decide)

/-- A message is answered with the error for a stale share, and the share is not submitted. -/
def Handled.RejectedAsStale (handled : Handled) : Prop :=
  handled.share = none ∧
    ∃ expected got, handled.reply.get "error" = some (.string (staleText expected got))

/-- The connection passes the check that a session is authorized,
`src/stratum_pool.rs:1286`. -/
def Connection.Authorized (conn : Connection) : Prop :=
  conn.isAuthorized = true ∧ conn.minerId.isSome

/-- Shares are rejected as stale in authorized sessions, by the job id. -/
theorem rejectedAsStale_iff (c : Crates) (env : Env) {pool : PoolState} {conn : Connection}
    {requestId : Value} {params : List Value} {jobId : String}
    (hj : params[1]? = some (.string jobId)) :
    (handleSubmit c env pool conn requestId params).RejectedAsStale ↔
      conn.Authorized ∧ Stale pool jobId := by
  have hp : paramString params 1 "0" = jobId := by rw [paramString, hj]
  unfold handleSubmit
  split
  · next minerId ha hm =>
    have hauth : conn.Authorized := ⟨ha, by rw [hm]; rfl⟩
    rw [hp]
    dsimp only
    split
    · next hs =>
      exact iff_of_true ⟨rfl, _, _, get_error_reply ..⟩ ⟨hauth, hs⟩
    · next hs =>
      exact iff_of_false (fun h ↦ Option.some_ne_none _ h.1) fun h ↦ hs h.2
  · next hne =>
    refine iff_of_false ?_ ?_
    · rintro ⟨-, expected, got, he⟩
      rw [get_error_reply] at he
      exact staleText_ne expected got (Value.string.inj (Option.some.inj he)).symm
    · rintro ⟨⟨ha, hm⟩, -⟩
      obtain ⟨minerId, hm⟩ := Option.isSome_iff_exists.mp hm
      exact hne minerId ha hm

namespace Job

/-- The jobs for work at the pool's height that are stale. -/
theorem stale_iff (c : Crates) (pool : PoolState) (job : Job)
    (h : job.AtHeight pool.currentWork.height) :
    Stale pool (job.id c) ↔ ¬job.ReadAsCurrent pool.currentWork.height := by
  cases job with
  | broadcast work =>
    have hw : work.blockHeight = pool.currentWork.height := h
    have hzero : pool.currentWork.height.toNat ≥ 16 → pool.currentWork.height ≠ 0 := by
      rintro hge h0
      rw [h0] at hge
      exact absurd hge (by decide)
    rw [id, stale_hexText_iff, ReadAsCurrent, hw, decimalReading_lt_iff, not_or, BitVec.lt_def,
      Nat.not_lt, and_comm (a := ¬HasLetter _)]
    constructor
    · intro hs
      exact hs.2
    · intro hs
      exact ⟨hzero hs.1, hs⟩
  | found nonce hash =>
    rw [id, stale_hexText_iff, ReadAsCurrent, not_or, not_or, Nat.not_le]

/-- The pool does not call a share of a producer's job stale, exactly when it takes the job
for a current one. -/
theorem not_rejectedAsStale_iff (c : Crates) (env : Env) (pool : PoolState)
    (conn : Connection) (requestId : Value) (params : List Value) (job : Job)
    (hj : params[1]? = some (.string (job.id c))) (hh : job.AtHeight pool.currentWork.height) :
    ¬(handleSubmit c env pool conn requestId params).RejectedAsStale ↔
      (conn.Authorized → job.ReadAsCurrent pool.currentWork.height) := by
  rw [rejectedAsStale_iff c env hj, stale_iff c pool job hh, not_and, not_not]

/-- Work for a block height. -/
def workAt (height : U64) : WorkPackage where
  workId := List.replicate 64 0xF0
  chainId := 0
  blockHeight := height
  blockHash := List.replicate 64 1
  parentHash := List.replicate 64 2
  merkleRoot := List.replicate 64 3
  timestamp := 1000
  difficulty := 1
  target := List.replicate 64 0xFF
  version := 1
  extraNonce := 0

/-- A pool at a height. -/
def poolAt (height : U64) : PoolState :=
  { samplePool 1 with currentWork := ⟨"work", "", "", height, 1700000000⟩ }

/-- The parameters of a share for a job. -/
def shareParams (job : Job) : List Value :=
  [.string sampleAddress, .string (job.id sampleCrates), .string "7", .string largestHash,
    .bool false]

/-- A broadcast job at height 26, `1a` in hexadecimal, is not stale. -/
theorem not_rejectedAsStale_26 :
    ¬(handleSubmit sampleCrates sampleEnv (poolAt 26) sampleConnection .null
      (shareParams (.broadcast (workAt 26)))).RejectedAsStale :=
  (not_rejectedAsStale_iff sampleCrates sampleEnv (poolAt 26) sampleConnection .null _
    (.broadcast (workAt 26)) rfl rfl).mpr fun _ ↦ by decide

/-- A broadcast job at height 16, `10` in hexadecimal, is stale at that height, and so is the
CPU miner's job for the nonce 16 at height 11. -/
theorem current_jobs_rejected :
    (handleSubmit sampleCrates sampleEnv (poolAt 16) sampleConnection .null
      (shareParams (.broadcast (workAt 16)))).RejectedAsStale ∧
    (handleSubmit sampleCrates sampleEnv (poolAt 11) sampleConnection .null
      (shareParams (.found 16 ⟨List.replicate 64 0, rfl⟩))).RejectedAsStale := by
  have hb : Stale (poolAt 16) ((broadcast (workAt 16)).id sampleCrates) :=
    (stale_iff sampleCrates (poolAt 16) (.broadcast (workAt 16)) rfl).mpr (by decide)
  have hf : Stale (poolAt 11) ((found 16 ⟨List.replicate 64 0, rfl⟩).id sampleCrates) :=
    (stale_iff sampleCrates (poolAt 11) (.found 16 _) trivial).mpr (by decide)
  exact ⟨(rejectedAsStale_iff _ _ rfl).mpr ⟨⟨rfl, rfl⟩, hb⟩,
    (rejectedAsStale_iff _ _ rfl).mpr ⟨⟨rfl, rfl⟩, hf⟩⟩

end Job
end SilverPow.Stratum
