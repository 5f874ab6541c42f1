import SilverPow.Stratum.Jobs

/-!
# Work notifications

The `mining.notify` message that the server broadcasts (`src/stratum.rs:440–474`) and its
reading by the client (`src/stratum_client.rs:553–613`). The server writes seven
parameters, and the client asks for nine. What they agree on is the height in the job id,
which both take in hexadecimal.
-/

namespace SilverPow.Stratum

open SilverPow.Base SilverPow.Work

/-! ### The server's side -/

/-- `calculate_difficulty_bits`, `src/difficulty.rs:271–313`, with its float expression for
difficulties above one as a parameter. -/
def calculateDifficultyBits (floatBits : U64 → U32) (difficulty : U64) : U32 :=
  if difficulty = 0 then 0 else if difficulty = 1 then 0x1d00ffff else floatBits difficulty

/-- The parameters of the message, `src/stratum.rs:463–471`. -/
def notifyParams (c : Crates) (floatBits : U64 → U32) (work : WorkPackage) : List Value :=
  [.string ((Job.broadcast work).id c), .string (c.hexEncode work.parentHash),
    .string (c.hexEncode work.merkleRoot), .string (c.hexEncode (leBytes 4 work.version.toNat)),
    .string (zeroPad 8 (hexText (calculateDifficultyBits floatBits work.difficulty).toNat)),
    .number (.posInt work.timestamp), .bool false]

/-- The message of `broadcast_work`, `src/stratum.rs:461–472`. -/
def notifyMessage (c : Crates) (floatBits : U64 → U32) (work : WorkPackage) : Value :=
  .object [("method", .string "mining.notify"), ("params", .array (notifyParams c floatBits work))]

/-! ### The client's side -/

/-- The height that the client reads in a job id: hexadecimal, else decimal, else zero;
`src/stratum_client.rs:593–605`. -/
def notifiedHeight (jobId : String) : U64 :=
  let first := String.ofList (jobId.toList.takeWhile (· ≠ '_'))
  (parseU64 16 first).getD ((parseU64 10 first).getD 0)

/-- `process_work_notification`, `src/stratum_client.rs:568–613`, with the client's current
block height before and after. -/
def processWorkNotification (currentBlockHeight : U64) (params : List Value) :
    Except String Unit × U64 :=
  if params.length < 9 then (.error "Invalid mining.notify params length", currentBlockHeight)
  else match params.head? with
    | some (.string jobId) =>
      match (params[6]? : Option Value) with
      | some (.string _) =>
        match (params[7]? : Option Value) with
        | some (.string _) =>
          let height := notifiedHeight jobId
          (.ok (), if 0 < height then height else currentBlockHeight)
        | _ => (.error "Invalid time in mining.notify", currentBlockHeight)
      | _ => (.error "Invalid bits in mining.notify", currentBlockHeight)
    | _ => (.error "Invalid job_id in mining.notify", currentBlockHeight)

/-! ### Where they agree -/

/-- Both sides take the height in the job id in the same base. -/
theorem notifiedHeight_broadcast (c : Crates) (work : WorkPackage) :
    notifiedHeight ((Job.broadcast work).id c) = work.blockHeight := by
  have hlt : ∀ d ∈ Nat.digits 16 work.blockHeight.toNat, d < 16 := fun d hd ↦
    Nat.digits_lt_base (by omega) hd
  have hparse := parseU64_hexText (show 0 < 16 by decide) (Nat.le_refl 16) work.blockHeight.isLt
  rw [if_pos hlt, Nat.ofDigits_digits, BitVec.ofNat_toNat, hexText] at hparse
  rw [notifiedHeight, Job.id, takeWhile_hexText, hparse]
  exact BitVec.setWidth_eq _

/-- Nine parameters or more, with text at the three positions that are read, are understood
if the job id is that of the broadcast. -/
theorem processWorkNotification_of_texts (c : Crates) {work : WorkPackage} (current : U64)
    {params : List Value} {bits time : String} (hpos : 1 ≤ work.blockHeight)
    (hlength : 9 ≤ params.length) (hjob : params.head? = some (.string ((Job.broadcast work).id c)))
    (hbits : params[6]? = some (.string bits)) (htime : params[7]? = some (.string time)) :
    processWorkNotification current params = (.ok (), work.blockHeight) := by
  have hheight : 0 < work.blockHeight := by
    rw [BitVec.le_def] at hpos
    rw [BitVec.lt_def]
    exact hpos
  rw [processWorkNotification, if_neg (Nat.not_lt.mpr hlength), hjob, hbits, htime]
  dsimp only
  rw [notifiedHeight_broadcast, if_pos hheight]

/-! ### Where they do not -/

/-- The client understands the message: it returns no error, and its height is that of the
work. -/
def Understood (c : Crates) (floatBits : U64 → U32) (work : WorkPackage) (current : U64) :
    Prop :=
  ∃ params, (notifyMessage c floatBits work).get "params" = some (.array params) ∧
    processWorkNotification current params = (.ok (), work.blockHeight)

/-- The client is given the parameters of the message. -/
theorem understood_iff {c : Crates} {floatBits : U64 → U32} {work : WorkPackage}
    {current : U64} : Understood c floatBits work current ↔
      processWorkNotification current (notifyParams c floatBits work) =
        (.ok (), work.blockHeight) := by
  simp [Understood, notifyMessage, Value.get, List.lookup_cons]

/-- The message has too few parameters for the client. -/
theorem processWorkNotification_notifyParams (c : Crates) (floatBits : U64 → U32)
    (work : WorkPackage) (current : U64) :
    processWorkNotification current (notifyParams c floatBits work) =
      (.error "Invalid mining.notify params length", current) := by
  simp [processWorkNotification, notifyParams]

/-- With parameters added at the end, the client takes the flag for the bits. -/
theorem processWorkNotification_append (c : Crates) (floatBits : U64 → U32) (work : WorkPackage)
    (current : U64) {rest : List Value} (h : 2 ≤ rest.length) :
    processWorkNotification current (notifyParams c floatBits work ++ rest) =
      (.error "Invalid bits in mining.notify", current) := by
  have hlength : ¬(notifyParams c floatBits work ++ rest).length < 9 := by
    simp only [notifyParams, List.length_append, List.length_cons, List.length_nil]
    omega
  rw [processWorkNotification, if_neg hlength]
  simp [notifyParams]

/-- No client understands the message for any work. -/
theorem not_understood (c : Crates) (floatBits : U64 → U32) (work : WorkPackage)
    (current : U64) : ¬Understood c floatBits work current := by
  rw [understood_iff, processWorkNotification_notifyParams]
  simp

/-- Work at height 1 is answered with an error, and a client at height 0 stays there. -/
theorem notification_at_one_not_understood :
    processWorkNotification 0 (notifyParams sampleCrates (fun _ ↦ 0x1b00ffff) (Job.workAt 1)) =
        (.error "Invalid mining.notify params length", 0) ∧
      ¬Understood sampleCrates (fun _ ↦ 0x1b00ffff) (Job.workAt 1) 0 := by
  have herror := processWorkNotification_notifyParams sampleCrates (fun _ ↦ 0x1b00ffff)
    (Job.workAt 1) 0
  refine ⟨herror, fun h ↦ ?_⟩
  rw [understood_iff, herror] at h
  cases h

end SilverPow.Stratum
