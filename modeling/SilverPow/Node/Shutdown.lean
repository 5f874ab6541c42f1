import SilverPow.Node.Durability

/-!
# A graceful shutdown

`src/bin/node.rs:281–341`, `417–435`: after the shutdown is requested `main` waits for two seconds,
saves the state and checks the database. Requests that are in progress may outlast the wait; where
there are none, nothing changes the state any more and a restart finds it.
-/

namespace SilverPow.Node

open SilverPow.Base SilverPow.Stratum SilverPow.WebSocket

namespace NodeServer

variable {json : BalancesJson} {kept : Nat} {s s' : NodeServer}

/-- The shutdown was requested, no request is in progress, and all that came after the first `n`
were refused; the state is `state`, and `main` saves it. -/
structure Drained (json : BalancesJson) (state : BlockchainState) (n : Nat) (s : NodeServer) :
    Prop where
  requested : s.shutdownRequested = true
  answered : ∀ task ∈ s.tasks, ∃ response, task.phase = .answered response
  refused : ∀ task ∈ s.tasks.drop n, task.phase = .answered (refusal task.request)
  unchanged : s.blockchainState = state
  saved : s.main = .saving (.over true) ∨ s.main = .finishing true → Encodes json s.db state

section Drained

variable {state : BlockchainState} {n : Nat}

/-- No request is in another phase. -/
theorem Drained.phase_eq (hd : Drained json state n s) {k : Nat} {request : RpcRequest}
    {phase : RequestPhase} (hk : s.tasks[k]? = some ⟨request, phase⟩) :
    ∃ response, phase = .answered response := hd.answered _ (List.mem_of_getElem? hk)

/-- Every event keeps a node drained. -/
theorem drained_step (hjson : json.Lawful) (hkept : s.Kept) (hd : Drained json state n s)
    {e : NodeEvent} (h : s.step json kept e = some s') : Drained json state n s' := by
  have hencodes : (∀ saver order failed, e ≠ .put saver order failed) →
      s.main = .saving (.over true) ∨ s.main = .finishing true → Encodes json s'.db state :=
    fun he hm ↦ encodes_step (hd.saved hm) h he
  cases e with
  | arrive request =>
    rw [step, hd.requested] at h
    cases h
    refine ⟨rfl, ?_, ?_, hd.unchanged, hd.saved⟩
    · intro task ht
      rcases List.mem_append.mp ht with ht | ht
      · exact hd.answered task ht
      · cases List.mem_singleton.mp ht
        exact ⟨_, rfl⟩
    · intro task ht
      rw [List.drop_append] at ht
      rcases List.mem_append.mp ht with ht | ht
      · exact hd.refused task ht
      · cases List.mem_singleton.mp (List.mem_of_mem_drop ht)
        rfl
  | update k next =>
    rw [step] at h
    split at h
    · next hk => obtain ⟨_, ⟨⟩⟩ := hd.phase_eq hk
    · cases h
  | returned k result =>
    rw [step] at h
    split at h
    · next hk => obtain ⟨_, ⟨⟩⟩ := hd.phase_eq hk
    · cases h
  | lock k =>
    rw [step] at h
    split at h
    · next hk => obtain ⟨_, ⟨⟩⟩ := hd.phase_eq hk
    · cases h
  | answer k now =>
    obtain ⟨⟨request, phase⟩, hk, h⟩ := Option.bind_eq_some_iff.mp h
    obtain ⟨_, rfl⟩ := hd.phase_eq hk
    cases h
  | put saver order failed =>
    have hsaved := encodes_of_savedBy hjson hkept h
    obtain ⟨-, h⟩ := Option.ite_none_right_eq_some.mp h
    cases saver with
    | request k =>
      rw [put] at h
      split at h
      · next hk => obtain ⟨_, ⟨⟩⟩ := hd.phase_eq hk
      · cases h
    | main =>
      rw [put] at h
      split at h
      · rcases hstep : saveStep json s.blockchainState order s.db _ failed with ⟨db, progress⟩
        rw [hstep] at h
        cases h
        refine ⟨hd.requested, hd.answered, hd.refused, hd.unchanged, fun hm ↦ ?_⟩
        rw [← hd.unchanged]
        rcases hm with hm | hm
        · exact hsaved hm
        · cases hm
      · cases h
  | accept | turn =>
    rw [step] at h
    obtain ⟨wsServer, -, h⟩ := Option.bind_eq_some_iff.mp h
    cases h
    exact ⟨hd.requested, hd.answered, hd.refused, hd.unchanged, hd.saved⟩
  | requestShutdown =>
    cases h
    exact ⟨rfl, hd.answered, hd.refused, hd.unchanged, hd.saved⟩
  | drain | lockMain =>
    rw [step] at h
    split at h
    · cases h
      exact ⟨by first | rfl | exact hd.requested, hd.answered, hd.refused, hd.unchanged, by simp⟩
    · cases h
  | unlockMain =>
    rw [step] at h
    split at h
    · next ok hm =>
      cases h
      refine ⟨hd.requested, hd.answered, hd.refused, hd.unchanged, fun h ↦ ?_⟩
      rcases h with h | h
      · cases h
      · cases h
        exact hd.saved (.inl hm)
    · cases h
  | flush timestamp failed | verify failed =>
    have hencodes := hencodes (by rintro _ _ _ ⟨⟩)
    rw [step] at h
    split at h
    · cases h
      exact ⟨hd.requested, hd.answered, hd.refused, hd.unchanged, hencodes⟩
    · cases h

/-- From the time when the shutdown was requested and no request was in progress, nothing changes
the state any more, every request is refused, and once `main` has saved the state well, the node
starts again from it. -/
theorem shutdown_keeps (hjson : json.Lawful) {db : Metadata} {es es' : List NodeEvent}
    {s₀ : NodeServer} (h₀ : NodeRun json kept db es s₀) (hreq : s₀.shutdownRequested = true)
    (hidle : ∀ task ∈ s₀.tasks, ∃ response, task.phase = .answered response)
    (hmain : s₀.main = .serving ∨ s₀.main = .draining)
    (h : Run (fun s e s' ↦ s.step json kept e = some s') s₀ es' s) :
    s.blockchainState = s₀.blockchainState ∧
      (∀ task ∈ s.tasks.drop s₀.tasks.length, task.phase = .answered (refusal task.request)) ∧
      (s.main = .finishing true →
        startState json s.db = s₀.blockchainState.restarted) := by
  have hd : s.Kept ∧ Drained json s₀.blockchainState s₀.tasks.length s := by
    refine h.invariant (fun s ↦ s.Kept ∧ Drained json s₀.blockchainState s₀.tasks.length s)
      ⟨kept_of_run h₀, hreq, hidle, by simp, rfl, ?_⟩ ?_
    · rcases hmain with hm | hm <;> simp [hm]
    · rintro s e s' ⟨hk, hd⟩ he
      exact ⟨kept_step hk he, drained_step hjson hk hd he⟩
  exact ⟨hd.2.unchanged, hd.2.refused, fun hm ↦ startState_of_encodes (hd.2.saved (.inr hm))⟩

end Drained

/-- `main` saves the state, and a request comes too late. -/
def shutdownEvents : List NodeEvent :=
  [.lockMain, .put .main firstBlockOrder none, .put .main firstBlockOrder none,
    .arrive submitBlock, .put .main firstBlockOrder none, .put .main firstBlockOrder none,
    .unlockMain, .flush 0 none, .verify none]

/-- A node whose only block has just been answered is asked to stop. -/
theorem exists_drainedRun : ∃ es s, NodeRun sampleJson 1000 ∅ es s ∧ s.main = .draining ∧
    s.shutdownRequested = true ∧ s.blockchainState = firstBlockState ∧
    (∃ request response, s.tasks = [⟨request, .answered response⟩]) ∧
    ∃ s', shutdownEvents.foldlM (step sampleJson 1000) s = some s' ∧
      s'.main = .finishing true := by
  have hs : ∃ s, (acceptedEvents ++ [NodeEvent.put (.request 0) firstBlockOrder none,
      .answer 0 7, .drain]).foldlM (step sampleJson 1000) (start sampleJson ∅) = some s ∧
      s.main = .draining ∧ s.shutdownRequested = true ∧ s.blockchainState = firstBlockState ∧
      (∃ request response, s.tasks = [⟨request, .answered response⟩]) ∧
      ∃ s', shutdownEvents.foldlM (step sampleJson 1000) s = some s' ∧
        s'.main = .finishing true := by
    refine Run.exists_foldlM_cons rfl (Run.exists_foldlM_cons rfl (Run.exists_foldlM_cons rfl ?_))
    refine Run.exists_foldlM_cons rfl (Run.exists_foldlM_cons rfl (Run.exists_foldlM_cons rfl ?_))
    refine Run.exists_foldlM_cons rfl (Run.exists_foldlM_cons rfl (Run.exists_foldlM_cons rfl ?_))
    refine Run.exists_foldlM_cons rfl ⟨_, rfl, rfl, rfl, rfl, ⟨_, _, rfl⟩, ?_⟩
    refine Run.exists_foldlM_cons rfl (Run.exists_foldlM_cons rfl (Run.exists_foldlM_cons rfl ?_))
    refine Run.exists_foldlM_cons rfl (Run.exists_foldlM_cons rfl (Run.exists_foldlM_cons rfl ?_))
    refine Run.exists_foldlM_cons rfl (Run.exists_foldlM_cons rfl (Run.exists_foldlM_cons rfl ?_))
    exact ⟨_, rfl, rfl⟩
  obtain ⟨s, hs, h⟩ := hs
  exact ⟨_, s, Run.foldlM .nil hs, h⟩

/-- The node starts again from its first block. -/
theorem shutdown_keeps_firstBlock : ∃ s : NodeServer, s.main = .finishing true ∧
    s.blockchainState = firstBlockState ∧
      startState sampleJson s.db = firstBlockState.restarted := by
  obtain ⟨es, s₀, h₀, hmain, hreq, hstate, ⟨request, response, htasks⟩, s, hs, hover⟩ :=
    exists_drainedRun
  have hidle : ∀ task ∈ s₀.tasks, ∃ response, task.phase = .answered response := by
    intro task ht
    rw [htasks] at ht
    cases List.mem_singleton.mp ht
    exact ⟨response, rfl⟩
  obtain ⟨hsame, -, hload⟩ := shutdown_keeps lawful_sampleJson h₀ hreq hidle (.inr hmain)
    (Run.foldlM .nil hs)
  rw [hstate] at hsame hload
  exact ⟨s, hover, hsame, hload hover⟩

end NodeServer
end SilverPow.Node
