import SilverPow.WebSocket.Delivery

/-!
# The table of clients

`src/websocket_server.rs:92–100`, `263–292`, `525–532`: a task enters its client when the
connection is established and removes it when its loop ends. A task whose first message cannot
be written returns before the removal, so its client stays in the table.
-/

namespace SilverPow.WebSocket

open SilverPow.Base

/-- A turn leaves the client in the table unless it removes it. -/
theorem Takes.isSome_entry_iff {kept : Nat} {events : List FullEvent}
    {task task' : ConnectionTask} {entry entry' : Option ClientConnection} {turn : TaskTurn}
    (h : Takes kept events task entry turn task' entry') (he : entry.isSome = true) :
    entry'.isSome = true ↔ task'.phase ≠ .removed := by
  cases h with
  | subscribe | welcomed | failed | received | delivered | broken | skipped => simp [he]
  | read hp frame => cases frame.ends <;> simp [he]
  | lagged hp => simp [he, hp]
  | remove => simp

namespace WebSocketServer

variable {kept : Nat} {es : List ServerEvent} {e : ServerEvent} {s s' : WebSocketServer}
  {a : String} {j k : Nat} {task task' : ConnectionTask}

/-- The latest task for an address. -/
def Latest (s : WebSocketServer) (a : String) (k : Nat) (task : ConnectionTask) : Prop :=
  s.tasks[k]? = some task ∧ task.clientId = a ∧
    ∀ j u, k < j → s.tasks[j]? = some u → u.clientId ≠ a

/-- The table has an entry for an address exactly if the latest task for it has not removed
it. -/
def Entered (s : WebSocketServer) : Prop :=
  ∀ a, (s.clients.lookup a).isSome = true ↔ ∃ k task, s.Latest a k task ∧ task.phase ≠ .removed

/-- A task that has not ended is the latest for its address. -/
theorem latest_of_not_over (h : s.EarlierOver) (hk : s.tasks[k]? = some task)
    (ho : ¬task.phase.Over) : s.Latest task.clientId k task :=
  ⟨hk, rfl, fun j u hj hu he ↦ ho (h k j task u hj hk hu he.symm)⟩

/-- There is only one latest task for an address. -/
theorem Latest.unique (h : s.Latest a k task) (h' : s.Latest a j task') : task = task' := by
  obtain ⟨hk, he, hlast⟩ := h
  obtain ⟨hj, he', hlast'⟩ := h'
  rcases Nat.lt_trichotomy k j with hlt | rfl | hlt
  · exact absurd he' (hlast j task' hlt hj)
  · exact Option.some.inj (hk.symm.trans hj)
  · exact absurd he (hlast' k task hlt hk)

/-- The latest task for an address depends on the tasks for it alone. -/
theorem latest_congr
    (h : ∀ (k : Nat) (task : ConnectionTask), task.clientId = a →
      (s'.tasks[k]? = some task ↔ s.tasks[k]? = some task)) :
    s'.Latest a k task ↔ s.Latest a k task := by
  have hle {s s' : WebSocketServer} (h : ∀ (k : Nat) (task : ConnectionTask), task.clientId = a →
      (s'.tasks[k]? = some task ↔ s.tasks[k]? = some task)) (hl : s'.Latest a k task) :
      s.Latest a k task := by
    obtain ⟨hk, he, hlast⟩ := hl
    refine ⟨(h k task he).mp hk, he, fun j u hj hu hua ↦ ?_⟩
    exact hlast j u hj ((h j u hua).mpr hu) hua
  exact ⟨hle h, hle fun k task he ↦ (h k task he).symm⟩

/-- A task enters its client. -/
theorem entered_accept (h : s.Entered) (clientId : String) (now : U64) :
    Entered { s with
      clients := s.clients.insert clientId (.new now)
      tasks := s.tasks ++ [⟨clientId, .inserted, 0, []⟩] } := by
  intro a
  dsimp only
  by_cases ha : a = clientId
  · subst ha
    rw [Finmap.lookup_insert]
    refine iff_of_true rfl ⟨_, _, ⟨getElem?_concat_iff.mpr (.inr ⟨rfl, rfl⟩), rfl, ?_⟩, by simp⟩
    intro j u hj hu
    have := (List.getElem?_eq_some_iff.mp hu).1
    simp only [List.length_append, List.length_singleton] at this
    omega
  · rw [Finmap.lookup_insert_of_ne _ ha, h a]
    apply exists_congr
    intro k
    apply exists_congr
    intro task
    refine and_congr_left fun _ ↦ (latest_congr ?_).symm
    intro j u hu
    rw [getElem?_concat_iff, or_iff_left]
    rintro ⟨-, rfl⟩
    exact ha hu.symm

/-- A turn of a task keeps its client in the table, or removes it. -/
theorem entered_turn (ho : s.EarlierOver) (h : s.Entered) {turn : TaskTurn}
    {entry : Option ClientConnection} (hk : s.tasks[k]? = some task)
    (ht : Takes kept s.eventTx task (s.clients.lookup task.clientId) turn task' entry) :
    Entered { s with
      clients := setEntry s.clients task.clientId entry
      tasks := s.tasks.set k task' } := by
  have hid := ht.clientId_eq
  have hlatest := latest_of_not_over ho hk ht.not_over
  intro a
  dsimp only
  rw [lookup_setEntry]
  split
  · next ha =>
    subst ha
    have hsome := (h _).mpr ⟨k, task, hlatest, fun hp ↦ ht.not_over (.inl hp)⟩
    have hlatest' : Latest { s with
        clients := setEntry s.clients task.clientId entry
        tasks := s.tasks.set k task' } task.clientId k task' := by
      refine ⟨(getElem?_set_iff hk).mpr (.inl ⟨rfl, rfl⟩), hid, fun j u hj hu ↦ ?_⟩
      rcases (getElem?_set_iff hk).mp hu with ⟨rfl, -⟩ | ⟨-, hu⟩
      · omega
      · exact hlatest.2.2 j u hj hu
    rw [ht.isSome_entry_iff hsome]
    constructor
    · intro hp
      exact ⟨k, task', hlatest', hp⟩
    · rintro ⟨j, u, hl, hp⟩
      rwa [hlatest'.unique hl]
  · next ha =>
    rw [h a]
    apply exists_congr
    intro j
    apply exists_congr
    intro u
    refine and_congr_left fun _ ↦ (latest_congr ?_).symm
    intro i t ht'
    rw [getElem?_set_iff hk]
    constructor
    · rintro (⟨rfl, rfl⟩ | ⟨-, hi⟩)
      · exact absurd (ht'.symm.trans hid) ha
      · exact hi
    · intro hi
      refine .inr ⟨?_, hi⟩
      rintro rfl
      cases hk.symm.trans hi
      exact ha ht'.symm

/-- In every run the table has an entry for an address exactly if the latest connection from it
has not removed it: it has not ended, or it has ended because its first message could not be
written. -/
theorem entered_of_run (h : ServerRun kept es s) : s.Entered := by
  have hboth : s.EarlierOver ∧ s.Entered := by
    refine h.invariant (fun s ↦ s.EarlierOver ∧ s.Entered)
      ⟨earlierOver_of_run (.nil : ServerRun kept [] new), ?_⟩ ?_
    · intro a
      refine iff_of_false (by simp [new]) ?_
      rintro ⟨k, task, ⟨hk, -⟩, -⟩
      cases hk
    · rintro s e s' ⟨ho, hi⟩ hs
      refine ⟨earlierOver_step ho hs, ?_⟩
      obtain ⟨-, hs⟩ := hs
      cases e with
      | accept clientId now =>
        cases hs
        exact entered_accept hi clientId now
      | send event =>
        cases hs
        exact hi
      | turn k turn =>
        obtain ⟨task, task', entry, hk, htakes, rfl⟩ := step_turn hs
        exact entered_turn ho hi hk htakes
  exact hboth.2

/-- A connection that breaks before the welcome is written. -/
def brokenEvents : List ServerEvent :=
  [.accept "127.0.0.1:50000" 1, .turn 0 .subscribe, .turn 0 (.welcome 2 false)]

/-- The server then: the connection has ended, and its client is still in the table. -/
def brokenServer : WebSocketServer where
  eventTx := []
  clients := Finmap.insert "127.0.0.1:50000" (.new 1) ∅
  tasks := [⟨"127.0.0.1:50000", .failed, 0, []⟩]

theorem run_broken : ServerRun eventCapacity brokenEvents brokenServer := by
  refine .snoc (.snoc (.snoc .nil ⟨?_, rfl⟩) ⟨trivial, rfl⟩) ⟨trivial, ?_⟩
  · rfl
  · intro task ht
    cases ht

theorem entered_broken : brokenServer.Entered := entered_of_run run_broken

end WebSocketServer
end SilverPow.WebSocket
