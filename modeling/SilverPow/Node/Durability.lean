import SilverPow.Node.Restart
import SilverPow.Node.Server

/-!
# What a node has saved

Saves of several requests run at the same time, each put by put. While a save holds the read lock
the fields of the state stay as they are, so all the saves that overlap put the same values, and
the first of them that finishes has saved the state in memory.
-/

namespace SilverPow.Node

open SilverPow.Base SilverPow.Stratum SilverPow.WebSocket

/-- The puts of the fields under the outer lock. -/
def outerWrites (state : BlockchainState) : List (String × Bytes) :=
  [("blockchain:block_count", leBytes 8 state.blockCount.toNat),
    ("blockchain:difficulty", leBytes 8 state.difficulty.toNat),
    ("blockchain:mining_address", utf8 state.miningAddress)]

/-- The keys of a saved state. -/
def savedKeys : List String :=
  ["blockchain:block_count", "blockchain:difficulty", "blockchain:mining_address",
    "blockchain:balances"]

/-- The first `n` of these puts are in the database. -/
def Holds (db : Metadata) (state : BlockchainState) (n : Nat) : Prop :=
  ∀ i < n, ∀ key value, (outerWrites state)[i]? = some (key, value) → db.lookup key = some value

/-- How many of them a save has done for sure. -/
def SaveProgress.done : SaveProgress → Nat
  | .puts n => n
  | .over true => 3
  | .over false => 0

/-- States with the same fields under the outer lock are saved the same way. -/
theorem outerWrites_eq {state state' : BlockchainState}
    (h : NodeServer.outer state = NodeServer.outer state') :
    outerWrites state = outerWrites state' := by
  simp only [NodeServer.outer, Prod.mk.injEq] at h
  rw [outerWrites, h.1, h.2.1, h.2.2.2.2, ← outerWrites]

/-- A save puts them first. -/
theorem mem_writes {json : BalancesJson} {state : BlockchainState}
    {order : List (String × U128)} {w : String × Bytes} (h : w ∈ outerWrites state) :
    w ∈ writes json state order := List.mem_append_left _ h

theorem getElem?_writes (json : BalancesJson) (state : BlockchainState)
    (order : List (String × U128)) {i : Nat} (hi : i < (outerWrites state).length) :
    (writes json state order)[i]? = (outerWrites state)[i]? := List.getElem?_append_left hi

/-- A key that is put is one of the keys of a saved state. -/
theorem mem_savedKeys {state : BlockchainState} {i : Nat} {key : String} {value : Bytes}
    (h : (outerWrites state)[i]? = some (key, value)) : key ∈ savedKeys := by
  match i, h with
  | 0, h | 1, h | 2, h =>
    cases h
    simp [savedKeys]

/-- Other keys do not matter. -/
theorem Holds.congr {db db' : Metadata} {state : BlockchainState} {n : Nat}
    (h : Holds db state n) (hdb : ∀ key ∈ savedKeys, db'.lookup key = db.lookup key) :
    Holds db' state n := by
  intro i hi key value hw
  rw [hdb key (mem_savedKeys hw)]
  exact h i hi key value hw

section Steps

variable {json : BalancesJson} {db : Metadata} {state : BlockchainState}
  {order : List (String × U128)}

/-- A put of a save, or its end. -/
theorem saveStep_cases (n : Nat) (failed : Option String) :
    saveStep json state order db n failed = (db, .over false) ∨
      ∃ key value, (writes json state order)[n]? = some (key, value) ∧
        saveStep json state order db n failed =
          (db.insert key value, if n + 1 = 4 then .over true else .puts (n + 1)) := by
  unfold saveStep
  split
  · next key value hw => exact .inr ⟨key, value, hw, rfl⟩
  · exact .inl rfl

/-- One more put of the state in memory keeps what other saves have put. -/
theorem Holds.insert {m : Nat} (h : Holds db state m) {key : String} {value : Bytes}
    (hw : (key, value) ∈ writes json state order) : Holds (db.insert key value) state m := by
  intro i hi key' value' hw'
  by_cases hk : key' = key
  · subst hk
    have hmem : (key', value') ∈ writes json state order := mem_writes (List.mem_of_getElem? hw')
    cases List.inj_on_of_nodup_map nodup_writes hmem hw rfl
    exact Finmap.lookup_insert _
  · rw [Finmap.lookup_insert_of_ne _ hk]
    exact h i hi key' value' hw'

/-- A save has done one put more. -/
theorem Holds.succ {n : Nat} (h : Holds db state n) {key : String} {value : Bytes}
    (hw : (writes json state order)[n]? = some (key, value)) :
    Holds (db.insert key value) state (n + 1) := by
  intro i hi key' value' hw'
  obtain hlt | rfl := Nat.lt_succ_iff_lt_or_eq.mp hi
  · exact h.insert (List.mem_of_getElem? hw) i hlt key' value' hw'
  · have hi : i < (outerWrites state).length := (List.getElem?_eq_some_iff.mp hw').1
    rw [getElem?_writes json state order hi, hw'] at hw
    cases hw
    exact Finmap.lookup_insert _

/-- A put keeps what every save has put, and the save that does it is one further. -/
theorem holds_saveStep (json : BalancesJson) (order : List (String × U128)) {m n : Nat}
    (h : Holds db state m) (hn : Holds db state n) (failed : Option String) :
    let next := saveStep json state order db n failed
    Holds next.1 state m ∧ Holds next.1 state next.2.done := by
  dsimp only
  obtain hs | ⟨key, value, hw, hs⟩ := saveStep_cases n failed
  · rw [hs]
    exact ⟨h, fun i hi ↦ absurd hi (Nat.not_lt_zero i)⟩
  · rw [hs]
    refine ⟨h.insert (List.mem_of_getElem? hw), ?_⟩
    have hnext := hn.succ hw
    split
    · next hfour =>
      intro i (hi : i < 3)
      exact hnext i (by omega)
    · exact hnext

/-- A save that ends well has saved the state in memory. -/
theorem encodes_saveStep (hjson : json.Lawful) (ho : state.balances.Iterates order) {n : Nat}
    (hn : Holds db state n) {failed : Option String} {db' : Metadata}
    (h : saveStep json state order db n failed = (db', .over true)) : Encodes json db' state := by
  obtain hs | ⟨key, value, hw, hs⟩ := saveStep_cases n failed
  · cases hs.symm.trans h
  · have hfour : n + 1 = 4 := by
      by_contra hne
      rw [if_neg hne] at hs
      cases hs.symm.trans h
    rw [if_pos hfour] at hs
    cases hs.symm.trans h
    obtain rfl : n = 3 := by omega
    have hnext := hn.succ hw
    cases htext : json.toString order with
    | error e =>
      rw [writes, htext] at hw
      cases hw
    | ok text =>
      rw [writes, htext] at hw
      cases hw
      exact ⟨hnext 0 (by omega) _ _ rfl, hnext 1 (by omega) _ _ rfl, hnext 2 (by omega) _ _ rfl,
        text, Finmap.lookup_insert _, hjson _ _ _ ho htext⟩

end Steps

/-! ### The checks do not touch the state -/

/-- A text with an underscore in front is not the key of a field. -/
theorem notMem_savedKeys {key : String} (h : key.toList.head? = some '_') : key ∉ savedKeys := by
  have hb : ∀ key ∈ savedKeys, key.toList.head? = some 'b' := by
    simp [savedKeys]
  intro hk
  cases h.symm.trans (hb key hk)

theorem flushKey_notMem (timestamp : Int) : flushKey timestamp ∉ savedKeys := by
  have h : "__flush_verification_".toList.head? = some '_' := by simp
  apply notMem_savedKeys
  change ("__flush_verification_" ++ toString timestamp ++ "__").toList.head? = some '_'
  rw [String.toList_append, String.toList_append, List.append_assoc, List.head?_append, h]
  rfl

theorem integrityKey_notMem : integrityKey ∉ savedKeys :=
  notMem_savedKeys (by simp [integrityKey])

theorem lookup_flushDatabase {key : String} (hk : key ∈ savedKeys) (timestamp : Int)
    (failed : Option String) (db : Metadata) :
    (flushDatabase timestamp failed db).2.lookup key = db.lookup key := by
  have hne : key ≠ flushKey timestamp := fun h ↦ flushKey_notMem timestamp (h ▸ hk)
  unfold flushDatabase
  split
  · rfl
  · dsimp only
    split
    · rw [Finmap.lookup_erase_ne hne, Finmap.lookup_insert_of_ne _ hne]
    · exact Finmap.lookup_insert_of_ne _ hne

theorem lookup_verifyDatabaseIntegrity {key : String} (hk : key ∈ savedKeys)
    (failed : Option String) (db : Metadata) :
    (verifyDatabaseIntegrity failed db).2.lookup key = db.lookup key := by
  have hne : key ≠ integrityKey := fun h ↦ integrityKey_notMem (h ▸ hk)
  unfold verifyDatabaseIntegrity
  split
  · rfl
  · dsimp only
    split <;> exact Finmap.lookup_insert_of_ne _ hne

namespace NodeServer

variable {json : BalancesJson} {kept : Nat} {s s' : NodeServer}

/-! ### What an event does to the saves -/

/-- A save of this saver has just ended well. -/
def SavedBy (s : NodeServer) : Saver → Prop
  | .request k => ∃ request result, s.tasks[k]? = some ⟨request, .saving result (.over true)⟩
  | .main => s.main = .saving (.over true)

/-- An event is a put of a save, changes the state as the locks allow, or does neither. -/
inductive Does (json : BalancesJson) (s : NodeServer) : NodeEvent → NodeServer → Prop
  | put {s' : NodeServer} {saver : Saver} {order : List (String × U128)} {failed : Option String}
      {n : Nat} {progress : SaveProgress} :
      .puts n ∈ s.saves → s.blockchainState.balances.Iterates order →
      saveStep json s.blockchainState order s.db n failed = (s'.db, progress) →
      s'.blockchainState = s.blockchainState →
      (∀ p ∈ s'.saves, p ∈ s.saves ∨ p = progress) →
      (s'.SavedBy saver → progress = .over true) → Does json s (.put saver order failed) s'
  | update {k : Nat} {state : BlockchainState} :
      s.MayUpdate state → Does json s (.update k state) { s with blockchainState := state }
  | other {e : NodeEvent} {s' : NodeServer} :
      (∀ saver order failed, e ≠ .put saver order failed) →
      s'.blockchainState = s.blockchainState →
      (∀ key ∈ savedKeys, s'.db.lookup key = s.db.lookup key) →
      (∀ p ∈ s'.saves, p ∈ s.saves ∨ p = .puts 0) → Does json s e s'

/-- The saves after a request has gone on. -/
theorem mem_saves_setPhase {k : Nat} {task : RpcTask} {phase : RequestPhase} {p : SaveProgress}
    (h : p ∈ (s.setPhase k task phase).saves) : p ∈ s.saves ∨ phase.progress = some p := by
  rcases List.mem_append.mp h with h | h
  · obtain ⟨other, ho, hp⟩ := List.mem_filterMap.mp h
    rcases List.mem_or_eq_of_mem_set ho with ho | rfl
    · exact .inl (List.mem_append_left _ (List.mem_filterMap.mpr ⟨other, ho, hp⟩))
    · exact .inr hp
  · exact .inl (List.mem_append_right _ h)

/-- The save of a request is one of the saves. -/
theorem mem_saves {k : Nat} {request : RpcRequest} {result : Except RpcError Value}
    {p : SaveProgress} (h : s.tasks[k]? = some ⟨request, .saving result p⟩) : p ∈ s.saves :=
  List.mem_append_left _ (List.mem_filterMap.mpr ⟨_, List.mem_of_getElem? h, rfl⟩)

/-- Every event does one of these. -/
theorem does_step {e : NodeEvent} (h : s.step json kept e = some s') : Does json s e s' := by
  cases e with
  | arrive request =>
    cases h
    refine .other nofun rfl (fun _ _ ↦ rfl) fun p hp ↦ .inl ?_
    simp only [saves, List.filterMap_append, List.mem_append] at hp ⊢
    rcases hp with (hp | hp) | hp
    · exact .inl hp
    · obtain ⟨task, ht, hp⟩ := List.mem_filterMap.mp hp
      cases List.mem_singleton.mp ht
      dsimp only at hp
      split at hp <;> cases hp
    · exact .inr hp
  | update k state =>
    rw [step] at h
    split at h
    · split at h
      · next hm =>
        cases h
        exact .update hm
      · cases h
    · cases h
  | returned k result =>
    rw [step] at h
    split at h
    · cases h
      refine .other nofun rfl (fun _ _ ↦ rfl) fun p hp ↦ ?_
      exact (mem_saves_setPhase hp).imp_right nofun
    · cases h
  | lock k =>
    rw [step] at h
    split at h
    · split at h
      · cases h
        refine .other nofun rfl (fun _ _ ↦ rfl) fun p hp ↦ ?_
        refine (mem_saves_setPhase hp).imp_right fun hp ↦ ?_
        cases hp
        rfl
      · cases h
    · cases h
  | put saver order failed =>
    obtain ⟨ho, h⟩ := Option.ite_none_right_eq_some.mp h
    cases saver with
    | request k =>
      rw [put] at h
      split at h
      · next request result n hk =>
        rcases hstep : saveStep json s.blockchainState order s.db n failed with ⟨db, progress⟩
        rw [hstep] at h
        cases h
        refine .put (mem_saves hk) ho hstep rfl (fun p hp ↦ ?_) ?_
        · refine (mem_saves_setPhase hp).imp_right fun hp ↦ ?_
          cases hp
          rfl
        · rintro ⟨request', result', hs⟩
          have hk' := List.getElem?_set_self (a := (⟨request, .saving result progress⟩ : RpcTask))
            (List.getElem?_eq_some_iff.mp hk).1
          cases hk'.symm.trans hs
          rfl
      · cases h
    | main =>
      rw [put] at h
      split at h
      · next n hm =>
        rcases hstep : saveStep json s.blockchainState order s.db n failed with ⟨db, progress⟩
        rw [hstep] at h
        cases h
        refine .put ?_ ho hstep rfl (fun p hp ↦ ?_) ?_
        · exact List.mem_append_right _ (by simp [hm, MainPhase.progress])
        · rcases List.mem_append.mp hp with hp | hp
          · exact .inl (List.mem_append_left _ hp)
          · exact .inr (List.mem_singleton.mp hp)
        · intro hs
          cases hs
          rfl
      · cases h
  | answer k now =>
    obtain ⟨task, hk, h⟩ := Option.bind_eq_some_iff.mp h
    rw [answer] at h
    split at h
    · split at h
      · cases h
      · cases h
        refine .other nofun rfl (fun _ _ ↦ rfl) fun p hp ↦ ?_
        exact (mem_saves_setPhase hp).imp_right nofun
    · cases h
      refine .other nofun rfl (fun _ _ ↦ rfl) fun p hp ↦ ?_
      exact (mem_saves_setPhase hp).imp_right nofun
    · cases h
  | accept | turn =>
    rw [step] at h
    obtain ⟨wsServer, -, h⟩ := Option.bind_eq_some_iff.mp h
    cases h
    exact .other nofun rfl (fun _ _ ↦ rfl) fun p hp ↦ .inl hp
  | requestShutdown =>
    cases h
    exact .other nofun rfl (fun _ _ ↦ rfl) fun p hp ↦ .inl hp
  | drain =>
    rw [step] at h
    split at h
    · next hm =>
      cases h
      refine .other nofun rfl (fun _ _ ↦ rfl) fun p hp ↦ .inl ?_
      simpa [saves, hm, MainPhase.progress] using hp
    · cases h
  | lockMain =>
    rw [step] at h
    split at h
    · cases h
      refine .other nofun rfl (fun _ _ ↦ rfl) fun p hp ↦ ?_
      exact (List.mem_append.mp hp).imp (List.mem_append_left _) List.mem_singleton.mp
    · cases h
  | unlockMain =>
    rw [step] at h
    split at h
    · cases h
      refine .other nofun rfl (fun _ _ ↦ rfl) fun p hp ↦ .inl ?_
      rcases List.mem_append.mp hp with hp | hp
      · exact List.mem_append_left _ hp
      · cases hp
    · cases h
  | flush timestamp failed =>
    rw [step] at h
    split at h
    · cases h
      exact .other nofun rfl (fun _ hk ↦ lookup_flushDatabase hk ..) fun p hp ↦ .inl hp
    · cases h
  | verify failed =>
    rw [step] at h
    split at h
    · cases h
      exact .other nofun rfl (fun _ hk ↦ lookup_verifyDatabaseIntegrity hk ..) fun p hp ↦ .inl hp
    · cases h

/-! ### What the saves have put -/

/-- Every save has put the values that are in memory. -/
def Kept (s : NodeServer) : Prop := ∀ p ∈ s.saves, Holds s.db s.blockchainState p.done

/-- Every event keeps it so. -/
theorem kept_step (hs : s.Kept) {e : NodeEvent} (h : s.step json kept e = some s') : s'.Kept := by
  cases does_step h with
  | @put _ saver order failed n progress hn ho hstep hstate hsaves _ =>
    intro p hp
    have hn : Holds s.db s.blockchainState n := hs _ hn
    rw [hstate]
    rcases hsaves p hp with hp | rfl
    · have hnext := holds_saveStep json order (hs p hp) hn failed
      rw [hstep] at hnext
      exact hnext.1
    · have hnext := holds_saveStep json order hn hn failed
      rw [hstep] at hnext
      exact hnext.2
  | @update k state hm =>
    intro p hp
    have hne : s.saves ≠ [] := List.ne_nil_of_mem hp
    have := hs p hp
    rw [Holds, ← outerWrites_eq (hm.resolve_left hne)] at this
    exact this
  | other hput hstate hdb hsaves =>
    intro p hp
    rw [hstate]
    rcases hsaves p hp with hp | rfl
    · exact (hs p hp).congr hdb
    · exact fun i hi ↦ absurd hi (Nat.not_lt_zero i)

theorem kept_of_run {db : Metadata} {es : List NodeEvent} (h : NodeRun json kept db es s) :
    s.Kept :=
  h.invariant Kept (fun _ hp ↦ absurd hp List.not_mem_nil) fun _ _ _ hs he ↦ kept_step hs he

/-! ### What a restart finds -/

/-- Whatever puts nothing leaves what a database encodes. -/
theorem encodes_step {e : NodeEvent} {state : BlockchainState} (hs : Encodes json s.db state)
    (h : s.step json kept e = some s') (he : ∀ saver order failed, e ≠ .put saver order failed) :
    Encodes json s'.db state := by
  have hdb : ∀ key ∈ savedKeys, s'.db.lookup key = s.db.lookup key := by
    cases does_step h with
    | put => exact absurd rfl (he _ _ _)
    | update => exact fun _ _ ↦ rfl
    | other _ _ hdb _ => exact hdb
  constructor
  · rw [hdb _ (by simp [savedKeys]), hs.blockCount]
  · rw [hdb _ (by simp [savedKeys]), hs.difficulty]
  · rw [hdb _ (by simp [savedKeys]), hs.miningAddress]
  · rw [hdb _ (by simp [savedKeys])]
    exact hs.balances

/-- A save that has just ended well has saved what is in memory. -/
theorem encodes_of_savedBy (hjson : json.Lawful) (hk : s.Kept) {saver : Saver}
    {order : List (String × U128)} {failed : Option String}
    (h : s.step json kept (.put saver order failed) = some s') (hs : s'.SavedBy saver) :
    Encodes json s'.db s'.blockchainState := by
  cases does_step h with
  | put hn ho hstep hstate _ hover =>
    rw [hstate]
    rw [hover hs] at hstep
    exact encodes_saveStep hjson ho (hk _ hn) hstep
  | other hput => exact absurd rfl (hput _ _ _)

/-- Without a put nothing changes what the database encodes. -/
theorem encodes_of_run {state : BlockchainState} {s₁ : NodeServer}
    (hs : Encodes json s₁.db state) {es : List NodeEvent}
    (h : Run (fun s e s' ↦ s.step json kept e = some s') s₁ es s)
    (hes : ∀ e ∈ es, ∀ saver order failed, e ≠ .put saver order failed) :
    Encodes json s.db state := by
  refine h.historyInvariant (fun es s ↦ (∀ e ∈ es, ∀ saver order failed,
    e ≠ .put saver order failed) → Encodes json s.db state) (fun _ ↦ hs) ?_ hes
  intro es s e s' ih he hes
  have hs := ih fun e' he' ↦ hes e' (List.mem_append_left _ he')
  exact encodes_step hs he (hes e (List.mem_append_right _ List.mem_cons_self))

/-- However the requests interleave: once a save has ended well, a node that stops at any time
before the next put starts again from what was in memory when the save ended. -/
theorem durable_of_run (hjson : json.Lawful) {db : Metadata} {es es' : List NodeEvent}
    {saver : Saver} {order : List (String × U128)} {failed : Option String} {s₁ : NodeServer}
    (h₁ : NodeRun json kept db (es ++ [.put saver order failed]) s₁) (hsaved : s₁.SavedBy saver)
    (h : Run (fun s e s' ↦ s.step json kept e = some s') s₁ es' s)
    (hes' : ∀ e ∈ es', ∀ saver order failed, e ≠ .put saver order failed) :
    startState json s.db = s₁.blockchainState.restarted := by
  obtain ⟨s₀, h₀, hstep⟩ := Run.snoc_iff.mp h₁
  exact startState_of_encodes
    (encodes_of_run (encodes_of_savedBy hjson (kept_of_run h₀) hstep hsaved) h hes')

/-- A block is submitted. -/
def submitBlock : RpcRequest := ⟨"submitblock", .array [], .null⟩

/-- The block is accepted, and all but the last field of the state have been saved. -/
def acceptedEvents : List NodeEvent :=
  [.arrive submitBlock, .update 0 firstBlockState,
    .returned 0 (.ok (.object [("hash", .string "00")])), .lock 0,
    .put (.request 0) firstBlockOrder none, .put (.request 0) firstBlockOrder none,
    .put (.request 0) firstBlockOrder none]

/-- The last field is saved. -/
theorem exists_savedRun : ∃ s, NodeRun sampleJson 1000 ∅
      (acceptedEvents ++ [.put (.request 0) firstBlockOrder none]) s ∧
    s.SavedBy (.request 0) ∧ s.blockchainState = firstBlockState ∧ s.wsServer = .new ∧
    ∃ s', s.step sampleJson 1000 (.answer 0 7) = some s' ∧
      s'.wsServer.eventTx = [.newBlock "00" 2 7 "" 50_000_000_000] := by
  have hs : ∃ s, (acceptedEvents ++ [NodeEvent.put (.request 0) firstBlockOrder none]).foldlM
      (step sampleJson 1000) (start sampleJson ∅) = some s ∧
      s.SavedBy (.request 0) ∧ s.blockchainState = firstBlockState ∧ s.wsServer = .new ∧
      ∃ s', s.step sampleJson 1000 (.answer 0 7) = some s' ∧
        s'.wsServer.eventTx = [.newBlock "00" 2 7 "" 50_000_000_000] := by
    refine Run.exists_foldlM_cons rfl (Run.exists_foldlM_cons rfl (Run.exists_foldlM_cons rfl ?_))
    refine Run.exists_foldlM_cons rfl (Run.exists_foldlM_cons rfl (Run.exists_foldlM_cons rfl ?_))
    refine Run.exists_foldlM_cons rfl (Run.exists_foldlM_cons rfl ?_)
    exact ⟨_, rfl, ⟨_, _, rfl⟩, rfl, rfl, _, rfl, rfl⟩
  obtain ⟨s, hs, h⟩ := hs
  have hrun : NodeRun sampleJson 1000 ∅
    ([] ++ (acceptedEvents ++ [.put (.request 0) firstBlockOrder none])) s := Run.foldlM .nil hs
  exact ⟨s, hrun, h⟩

/-- The node starts again from its first block after the answer. -/
theorem durable_of_run_firstBlock : ∃ s,
    (∃ es, NodeRun sampleJson 1000 ∅ es s) ∧ s.wsServer.eventTx ≠ [] ∧
      startState sampleJson s.db = firstBlockState.restarted := by
  obtain ⟨s₁, h₁, hsaved, hstate, -, s, hstep, hsent⟩ := exists_savedRun
  refine ⟨s, ⟨_, h₁.snoc hstep⟩, by simp [hsent], ?_⟩
  rw [← hstate]
  refine durable_of_run lawful_sampleJson h₁ hsaved (.snoc .nil hstep) ?_
  intro e he
  cases List.mem_singleton.mp he
  exact fun _ _ _ ↦ nofun

/-! ### What is announced -/

/-- An answer that announces a block. -/
def Announces (s s' : NodeServer) (event : FullEvent) : Prop :=
  s'.wsServer.eventTx = s.wsServer.eventTx ++ [event]

/-- However the requests interleave: a block is announced with a height and a miner that are in
the database at that moment, unless the save before it has failed. -/
theorem announced_saved {db : Metadata} {es : List NodeEvent} {k : Nat} {now : U64}
    (h : NodeRun json kept db es s) (hstep : s.step json kept (.answer k now) = some s')
    (hsaved : s.SavedBy (.request k)) {event : FullEvent} (ha : s.Announces s' event) :
    ∃ hash height miner, event = .newBlock hash height now miner 50_000_000_000 ∧
      s.db.lookup "blockchain:block_count" = some (leBytes 8 height.toNat) ∧
      s.db.lookup "blockchain:mining_address" = some (utf8 miner) := by
  obtain ⟨request, result, hk⟩ := hsaved
  have hholds : Holds s.db s.blockchainState 3 := kept_of_run h _ (mem_saves hk)
  rw [step, hk] at hstep
  cases hstep
  unfold Announces announce at ha
  dsimp only at ha
  split at ha
  · split at ha
    · next value hash _ =>
      cases List.append_cancel_left ha
      exact ⟨hash, _, _, rfl, hholds 0 (by omega) _ _ rfl, hholds 2 (by omega) _ _ rfl⟩
    · simp at ha
  · simp at ha

/-- The first block is announced. -/
theorem announced_saved_firstBlock : ∃ (s : NodeServer) (hash : String) (height : U64)
    (miner : String), FullEvent.newBlock "00" 2 7 "" 50_000_000_000 =
        .newBlock hash height 7 miner 50_000_000_000 ∧
      s.db.lookup "blockchain:block_count" = some (leBytes 8 height.toNat) ∧
      s.db.lookup "blockchain:mining_address" = some (utf8 miner) := by
  obtain ⟨s, h, hsaved, -, hnew, s', hstep, hsent⟩ := exists_savedRun
  refine ⟨s, announced_saved h hstep hsaved ?_⟩
  rw [Announces, hsent, hnew]
  rfl

end NodeServer
end SilverPow.Node
