import SilverPow.Builder.Submission

/-!
# The chain of accepted blocks

A call of `submit_block` (`src/block_submission.rs:72–163`) reads the last hash and the last
height before it waits for the node, and writes both after. Two calls that wait at the same
time have read the same values: when the node accepts both, two accepted blocks have one
height. The blocks form a chain as long as every call that writes still finds what it has
read.
-/

namespace SilverPow.Builder

open SilverPow.Base SilverPow.Work SilverPow.Stratum

/-- Blocks of different heights, each on the block at the height below or first on no block. -/
structure Chained (sha512 : Sha512) (blocks : List Block) : Prop where
  heights : blocks.Pairwise fun b b' ↦ b.height ≠ b'.height
  linked : ∀ b ∈ blocks, (b.height = 1 ∧ b.header.prevBlockHash = zeroHash) ∨
    ∃ parent ∈ blocks, parent.height.toNat + 1 = b.height.toNat ∧
      b.header.prevBlockHash = firstBytes (parent.hash sha512)

/-- Blocks that were added one after another, with the hash and the height of the last. -/
inductive Tip (sha512 : Sha512) : List Block → Hash32 → Nat → Prop
  | start : Tip sha512 [] zeroHash 0
  | extend {blocks : List Block} {prev : Hash32} {height : Nat} {b : Block}
      (h : Tip sha512 blocks prev height) (hp : b.header.prevBlockHash = prev)
      (hh : b.height.toNat = height + 1) :
      Tip sha512 (blocks ++ [b]) (firstBytes (b.hash sha512)) (height + 1)

section Tip

variable {sha512 : Sha512} {blocks : List Block} {prev : Hash32} {height : Nat}

/-- The heights of the blocks are those up to the last one. -/
theorem Tip.exists_height_iff (h : Tip sha512 blocks prev height) (k : Nat) :
    (∃ b ∈ blocks, b.height.toNat = k) ↔ 1 ≤ k ∧ k ≤ height := by
  induction h with
  | start => simp; omega
  | @extend blocks prev height b _ _ hh ih =>
    simp only [List.mem_append, List.mem_singleton, or_and_right, exists_or, exists_eq_left, ih]
    omega

/-- The block at the last height has the last hash. -/
theorem Tip.hash_of_height (h : Tip sha512 blocks prev height) {b : Block} (hb : b ∈ blocks)
    (hh : b.height.toNat = height) : firstBytes (b.hash sha512) = prev := by
  cases h with
  | start => cases hb
  | @extend blocks _ height last h _ _ =>
    obtain hb | hb := List.mem_append.mp hb
    · have := (h.exists_height_iff _).mp ⟨b, hb, rfl⟩
      omega
    · rw [List.mem_singleton.mp hb]

/-- Such blocks form a chain. -/
theorem Tip.chained (h : Tip sha512 blocks prev height) : Chained sha512 blocks := by
  induction h with
  | start => exact ⟨.nil, by simp⟩
  | @extend blocks prev height b h hp hh ih =>
    constructor
    · rw [List.pairwise_append]
      refine ⟨ih.heights, List.pairwise_singleton _ _, ?_⟩
      intro a ha c hc
      rw [List.mem_singleton.mp hc]
      intro heq
      have := (h.exists_height_iff _).mp ⟨a, ha, congrArg BitVec.toNat heq⟩
      omega
    · intro a ha
      obtain ha | ha := List.mem_append.mp ha
      · apply (ih.linked a ha).imp_right
        rintro ⟨parent, hparent, hlink⟩
        exact ⟨parent, List.mem_append_left _ hparent, hlink⟩
      · rw [List.mem_singleton.mp ha]
        by_cases hzero : height = 0
        · subst hzero
          refine .inl ⟨BitVec.eq_of_toNat_eq hh, ?_⟩
          rw [hp]
          cases h
          rfl
        · obtain ⟨parent, hparent, hheight⟩ :=
            (h.exists_height_iff height).mpr ⟨Nat.one_le_iff_ne_zero.mpr hzero, Nat.le_refl _⟩
          refine .inr ⟨parent, List.mem_append_left _ hparent, by omega, ?_⟩
          rw [hp, h.hash_of_height hparent hheight]

/-- A chain with one more block has it on the last one. -/
theorem Tip.of_chained (h : Tip sha512 blocks prev height) {b : Block}
    (hc : Chained sha512 (blocks ++ [b])) :
    b.header.prevBlockHash = prev ∧ b.height.toNat = height + 1 := by
  have hnew : ¬(1 ≤ b.height.toNat ∧ b.height.toNat ≤ height) := by
    intro hle
    obtain ⟨a, ha, heq⟩ := (h.exists_height_iff _).mpr hle
    exact (List.pairwise_append.mp hc.heights).2.2 a ha b (List.mem_singleton_self b)
      (BitVec.eq_of_toNat_eq heq)
  obtain ⟨hone, hp⟩ | ⟨parent, hparent, hheight, hp⟩ :=
    hc.linked b (List.mem_append_right _ (List.mem_singleton_self b))
  · have hone : b.height.toNat = 1 := congrArg BitVec.toNat hone
    have hzero : height = 0 := by omega
    subst hzero
    rw [hp, hone]
    cases h
    exact ⟨rfl, rfl⟩
  · obtain hparent | hparent := List.mem_append.mp hparent
    · have := (h.exists_height_iff _).mp ⟨parent, hparent, rfl⟩
      have hlast : parent.height.toNat = height := by omega
      rw [hp, h.hash_of_height hparent hlast]
      exact ⟨rfl, by omega⟩
    · rw [List.mem_singleton.mp hparent] at hheight
      omega

end Tip

namespace BlockSubmissionHandler

/-- A call that updates finds the hash that its block is built on, and the height below its
block, and that height is not the largest. -/
def UpToDate (s : BlockSubmissionHandler) : SubmissionEvent → Prop
  | .update call => ∀ timestamp block, s.calls[call]? = some (.confirmed timestamp block) →
    block.header.prevBlockHash = s.prevBlockHash ∧
      block.height.toNat = s.currentHeight.toNat + 1
  | _ => True

/-- The handler knows the last of its accepted blocks. -/
def KnowsTip (sha512 : Sha512) (s : BlockSubmissionHandler) : Prop :=
  Tip sha512 s.accepted s.prevBlockHash s.currentHeight.toNat

section Runs

variable {sha512 : Sha512} {hex : HexCrate} {s : BlockSubmissionHandler}

/-- What an event does to the last hash, the last height and the accepted blocks: only the
update of a confirmed call changes them. -/
theorem step_cases (sha512 : Sha512) (hex : HexCrate) (s : BlockSubmissionHandler)
    (e : SubmissionEvent) :
    ((s.step sha512 hex e).accepted = s.accepted ∧
        (s.step sha512 hex e).prevBlockHash = s.prevBlockHash ∧
        (s.step sha512 hex e).currentHeight = s.currentHeight ∧ s.UpToDate e) ∨
      ∃ call timestamp block, e = .update call ∧
        s.calls[call]? = some (.confirmed timestamp block) ∧
        (s.step sha512 hex e).accepted = s.accepted ++ [block] ∧
        (s.step sha512 hex e).prevBlockHash = firstBytes (block.hash sha512) ∧
        (s.step sha512 hex e).currentHeight = block.height := by
  cases e with
  | readPrevHash args now builtAt => exact .inl ⟨rfl, rfl, rfl, trivial⟩
  | readHeight call now =>
    left
    unfold step
    dsimp only
    split
    · split <;> exact ⟨rfl, rfl, rfl, trivial⟩
    · exact ⟨rfl, rfl, rfl, trivial⟩
  | send call =>
    left
    unfold step
    dsimp only
    split <;> exact ⟨rfl, rfl, rfl, trivial⟩
  | receive call answer =>
    left
    unfold step
    dsimp only
    split
    · split <;> exact ⟨rfl, rfl, rfl, trivial⟩
    · exact ⟨rfl, rfl, rfl, trivial⟩
  | update call =>
    by_cases h : ∃ timestamp block, s.calls[call]? = some (.confirmed timestamp block)
    · obtain ⟨timestamp, block, h⟩ := h
      refine .inr ⟨call, timestamp, block, rfl, h, ?_⟩
      rw [step, h]
      exact ⟨rfl, rfl, rfl⟩
    · have hstep : s.step sha512 hex (.update call) = s := by
        unfold step
        dsimp only
        split
        · next timestamp block hc => exact absurd ⟨timestamp, block, hc⟩ h
        · rfl
      rw [hstep]
      refine .inl ⟨rfl, rfl, rfl, ?_⟩
      intro timestamp block hc
      exact absurd ⟨timestamp, block, hc⟩ h

/-- From a state that knows the last block, an event leads to a chain exactly if it finds what
its call has read, and then the handler knows the last block again. -/
theorem chained_step_iff (h : s.KnowsTip sha512) (e : SubmissionEvent) :
    (Chained sha512 (s.step sha512 hex e).accepted ↔ s.UpToDate e) ∧
      (s.UpToDate e → (s.step sha512 hex e).KnowsTip sha512) := by
  obtain ⟨ha, hp, hh, hu⟩ | ⟨call, timestamp, block, rfl, hc, ha, hp, hh⟩ :=
    step_cases sha512 hex s e
  · rw [KnowsTip, ha, hp, hh]
    exact ⟨iff_of_true h.chained hu, fun _ ↦ h⟩
  · have hiff : s.UpToDate (.update call) ↔
        block.header.prevBlockHash = s.prevBlockHash ∧
          block.height.toNat = s.currentHeight.toNat + 1 := by
      constructor
      · intro hu
        exact hu timestamp block hc
      · intro hu timestamp' block' hc'
        cases hc.symm.trans hc'
        exact hu
    have htip : s.UpToDate (.update call) →
        (s.step sha512 hex (.update call)).KnowsTip sha512 := by
      intro hu
      obtain ⟨hprev, hheight⟩ := hiff.mp hu
      rw [KnowsTip, ha, hp, hh, hheight]
      exact .extend h hprev hheight
    refine ⟨⟨?_, fun hu ↦ (htip hu).chained⟩, htip⟩
    intro hchain
    rw [ha] at hchain
    exact hiff.mpr (h.of_chained hchain)

/-- In every state of a run the accepted blocks form a chain, exactly when every call that
updates finds what it has read. -/
theorem chained_iff {es : List SubmissionEvent} (h : SubmissionRun sha512 hex es s) :
    Run.Always (fun s e s' ↦ s' = step sha512 hex s e) new
        (fun _ s ↦ Chained sha512 s.accepted) es ↔
      Run (Guarded UpToDate fun s e s' ↦ s' = step sha512 hex s e) new es s := by
  apply Run.always_iff_guarded (fun _ _ _ ↦ id) (I := fun _ ↦ True) (K := KnowsTip sha512)
    trivial (show KnowsTip sha512 new from .start) (fun _ _ _ _ _ ↦ trivial) _
    (fun _ _ hk ↦ hk.chained) _ h
  · rintro s e _ - hk hu rfl
    exact (chained_step_iff hk e).2 hu
  · rintro s e _ - hk rfl hc
    exact (chained_step_iff hk e).1.mp hc

/-! ### Calls that nothing comes between -/

/-- What a call has read is the last hash, and after the validation also the height below its
block. -/
def HasRead (prevBlockHash : Hash32) (currentHeight : U64) : Phase → Prop
  | .built _ block => block.header.prevBlockHash = prevBlockHash
  | .validated _ block | .sent _ block | .confirmed _ block =>
    block.header.prevBlockHash = prevBlockHash ∧ block.height = currentHeight + 1
  | .returned _ => True

/-- The handler still holds what a call has read. -/
def Holds (s : BlockSubmissionHandler) (call : Nat) : Prop :=
  ∀ phase, s.calls[call]? = some phase → HasRead s.prevBlockHash s.currentHeight phase

/-- A block that passes the validation is at the next height. -/
theorem height_of_validateBlock {currentHeight : U64} {now : Except String U64} {block : Block}
    (h : validateBlock currentHeight now block = .ok ()) : block.height = currentHeight + 1 := by
  unfold validateBlock at h
  dsimp only at h
  by_contra hne
  split at h
  · cases h
  · cases now with
    | error e => cases h
    | ok now =>
      dsimp only at h
      split_ifs at h

/-- The handler holds what a new call reads. -/
theorem holds_readPrevHash (args : SubmitArgs) (now builtAt : Except String U64) :
    (s.step sha512 hex (.readPrevHash args now builtAt)).Holds s.calls.length := by
  intro phase hphase
  change (s.calls ++ [buildBlock s.prevBlockHash args now builtAt])[s.calls.length]? =
    some phase at hphase
  rw [List.getElem?_append_right (Nat.le_refl _), Nat.sub_self] at hphase
  cases hphase
  change HasRead s.prevBlockHash s.currentHeight (buildBlock s.prevBlockHash args now builtAt)
  cases now with
  | error e => trivial
  | ok timestamp =>
    cases builtAt with
    | error e => trivial
    | ok now => rfl

/-- Moving a call on to a phase with the same reads. -/
theorem holds_moveTo {call i : Nat} {phase : Phase} (h : s.Holds call)
    (hphase : i = call → HasRead s.prevBlockHash s.currentHeight phase) :
    (s.moveTo i phase).Holds call := by
  intro phase' hget
  change (s.calls.set i phase)[call]? = some phase' at hget
  rw [List.getElem?_set] at hget
  split at hget
  · next hi =>
    split at hget
    · cases hget
      exact hphase hi
    · cases hget
  · exact h phase' hget

/-- After a step that writes nothing the handler still holds what a call has read. -/
theorem holds_step {call : Nat} {e : SubmissionEvent} (hcall : call < s.calls.length)
    (hno : ∀ i, e ≠ .update i) (h : s.Holds call) : (s.step sha512 hex e).Holds call := by
  cases e with
  | readPrevHash args now builtAt =>
    intro phase hphase
    change (s.calls ++ _)[call]? = some phase at hphase
    rw [List.getElem?_append_left hcall] at hphase
    exact h phase hphase
  | readHeight i now =>
    unfold step
    dsimp only
    split
    · next timestamp block hget =>
      split
      · next hok =>
        apply holds_moveTo h
        rintro rfl
        exact ⟨h _ hget, height_of_validateBlock hok⟩
      · exact holds_moveTo h fun _ ↦ trivial
    · exact h
  | send i =>
    unfold step
    dsimp only
    split
    · next timestamp block hget =>
      apply holds_moveTo h
      rintro rfl
      have hread := h _ hget
      exact hread
    · exact h
  | receive i answer =>
    unfold step
    dsimp only
    split
    · next timestamp block hget =>
      split
      · apply holds_moveTo h
        rintro rfl
        have hread := h _ hget
        exact hread
      · exact holds_moveTo h fun _ ↦ trivial
      · exact holds_moveTo h fun _ ↦ trivial
    · exact h
  | update i => exact absurd rfl (hno i)

@[simp] theorem length_calls_moveTo (call : Nat) (phase : Phase) :
    (s.moveTo call phase).calls.length = s.calls.length :=
  List.length_set

/-- No step loses a call. -/
theorem length_calls_step (s : BlockSubmissionHandler) (e : SubmissionEvent) :
    s.calls.length ≤ (s.step sha512 hex e).calls.length := by
  unfold step
  split
  · simp
  · split
    · split <;> rw [length_calls_moveTo]
    · exact Nat.le_refl _
  · split
    · exact (length_calls_moveTo _ _).ge
    · exact Nat.le_refl _
  · split
    · split <;> rw [length_calls_moveTo]
    · exact Nat.le_refl _
  · split
    · exact (length_calls_moveTo _ _).ge
    · exact Nat.le_refl _

/-- The handler still holds what a call has read after any steps that write nothing. -/
theorem holds_foldl {call : Nat} {es : List SubmissionEvent} (hcall : call < s.calls.length)
    (hno : ∀ e ∈ es, ∀ i, e ≠ .update i) (h : s.Holds call) :
    (es.foldl (step sha512 hex) s).Holds call := by
  induction es generalizing s with
  | nil => exact h
  | cons e es ih =>
    rw [List.forall_mem_cons] at hno
    exact ih (hcall.trans_le (length_calls_step s e)) hno.2 (holds_step hcall hno.1 h)

/-- A call that the handler holds the reads of is up to date, below the largest height. -/
theorem upToDate_of_holds {call : Nat} (h : s.Holds call)
    (hlt : s.currentHeight.toNat + 1 < 2 ^ 64) : s.UpToDate (.update call) := by
  intro timestamp block hget
  obtain ⟨hprev, hheight⟩ := h _ hget
  rw [hheight, BitVec.toNat_add, Nat.mod_eq_of_lt]
  · exact ⟨hprev, rfl⟩
  · exact hlt

/-- A call that no update comes between, from its first step on, finds what it has read. -/
theorem upToDate_of_no_update (args : SubmitArgs) (now builtAt : Except String U64)
    {es : List SubmissionEvent} (hno : ∀ e ∈ es, ∀ i, e ≠ .update i)
    (hlt : (es.foldl (step sha512 hex)
      (s.step sha512 hex (.readPrevHash args now builtAt))).currentHeight.toNat + 1 < 2 ^ 64) :
    (es.foldl (step sha512 hex) (s.step sha512 hex (.readPrevHash args now builtAt))).UpToDate
      (.update s.calls.length) := by
  apply upToDate_of_holds _ hlt
  apply holds_foldl _ hno (holds_readPrevHash args now builtAt)
  change s.calls.length < (s.calls ++ [buildBlock s.prevBlockHash args now builtAt]).length
  rw [List.length_append]
  exact Nat.lt_succ_self _

end Runs

/-- A hash function of one value. -/
def constSha512 : Sha512 := fun _ ↦ ⟨List.replicate 64 1, rfl⟩

/-- A block at height 1. -/
def firstArgs : SubmitArgs := ⟨0, 1, "miner", 50, 0, 0⟩

/-- Two calls for height 1 wait for the node at the same time, and it accepts both. -/
def twoCalls : List SubmissionEvent :=
  [.readPrevHash firstArgs (.ok 100) (.ok 100),
    .readPrevHash { firstArgs with minerAddress := "other" } (.ok 100) (.ok 100),
    .readHeight 0 (.ok 100), .readHeight 1 (.ok 100), .send 0, .send 1,
    .receive 0 (.response 200 (.ok (.object []))), .update 0,
    .receive 1 (.response 200 (.ok (.object []))), .update 1]

/-- Two accepted blocks have the height 1. -/
theorem not_chained_twoCalls :
    ∃ s, SubmissionRun constSha512 .base16 twoCalls s ∧ s.accepted.length = 2 ∧
      ¬Chained constSha512 s.accepted := by
  refine ⟨_, Run.foldl _ _ _, rfl, ?_⟩
  intro hc
  exact (List.pairwise_cons.mp hc.heights).1 _ (List.mem_singleton_self _) rfl

/-- One call alone. -/
theorem chained_iff_oneCall :
    let es := twoCalls.take 1 ++ [.readHeight 0 (.ok 100), .send 0,
      .receive 0 (.response 200 (.ok (.object []))), .update 0]
    Run.Always (fun s e s' ↦ s' = step constSha512 .base16 s e) new
        (fun _ s ↦ Chained constSha512 s.accepted) es ↔
      Run (Guarded UpToDate fun s e s' ↦ s' = step constSha512 .base16 s e) new es
        (es.foldl (step constSha512 .base16) new) :=
  chained_iff (Run.foldl _ _ _)

end BlockSubmissionHandler
end SilverPow.Builder
