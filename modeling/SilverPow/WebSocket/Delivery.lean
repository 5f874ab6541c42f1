import SilverPow.WebSocket.Connections

/-!
# Delivery of events

A connection is served as if it were alone: its table entry and what is written to it follow
from the frames of its client and from a stretch of the events sent, taken one after another.
So it gets the events of its channels in the order in which they were sent, each once, unless
it lags so far behind that the channel has dropped them.
-/

namespace SilverPow.WebSocket

open SilverPow.Base SilverPow.Stratum

/-! ### One connection alone -/

/-- A turn of a connection: it reads a frame, gets an event or misses some. -/
inductive Turn where
  | read (frame : Frame) (now : U64) (written : Bool)
  | got (event : FullEvent)
  | missed (events : List FullEvent)

namespace Turn

/-- What a turn does with the events of the channel. -/
def reading : Turn → Option (Reading FullEvent)
  | read .. => none
  | got event => some (.got event)
  | missed events => some (.missed events)

/-- The frame that a turn reads. -/
def frame : Turn → Option Frame
  | read frame .. => some frame
  | got _ | missed _ => none

end Turn

/-- A connection by itself: its client and what is written to it. -/
structure Alone where
  client : ClientConnection
  outbox : List Outgoing

namespace Alone

/-- The connection after a turn: a frame changes the client and may be answered, and an event
of a channel of the client is written. -/
def step (s : Alone) : Turn → Alone
  | .read frame now written =>
    ⟨frame.apply s.client,
      s.outbox ++ if written then (frame.reply (some s.client) now).toList else []⟩
  | .got event =>
    if s.client.shouldSend event.kind then { s with outbox := s.outbox ++ [.text event.message] }
    else s
  | .missed _ => s

/-- Without frames the client stays as it is, and the events of its channels are written. -/
theorem foldl_step_of_no_frame (s : Alone) {turns : List Turn}
    (h : turns.filterMap Turn.frame = []) :
    turns.foldl step s = ⟨s.client, s.outbox ++
      (((turns.filterMap Turn.reading).filterMap Reading.value).filter
        (s.client.shouldSend ·.kind)).map (.text ·.message)⟩ := by
  induction turns generalizing s with
  | nil => simp
  | cons turn turns ih =>
    cases turn with
    | read frame now written => cases h
    | got event =>
      rw [List.foldl_cons, ih _ h, step]
      by_cases hs : s.client.shouldSend event.kind = true
      · simp [hs, Turn.reading, Reading.value]
      · simp [hs, Turn.reading, Reading.value]
    | missed events =>
      rw [List.foldl_cons, ih _ h, step]
      simp [List.filterMap_cons, Turn.reading, Reading.value]

end Alone

/-! ### A task follows its connection -/

/-- The event that a task has received and not yet dealt with; a task that has left its loop may
have dropped one. -/
def Phase.Pending : Phase → List (Reading FullEvent) → Prop
  | .looping, rest => rest = []
  | .holding event, rest => rest = [.got event]
  | .leaving, rest | .removed, rest => rest = [] ∨ ∃ event, rest = [.got event]
  | .inserted, _ | .subscribed, _ | .failed, _ => False

/-- A task has begun its loop and not failed before it. -/
def Phase.Begun : Phase → Prop
  | .looping | .holding _ | .leaving | .removed => True
  | .inserted | .subscribed | .failed => False

/-- A task that has begun its loop, its table entry and the frames that it has read since a
start follow from the turns of a connection alone since then. -/
structure Follows (kept : Nat) (events : List FullEvent) (alone : Alone) (start : Nat)
    (turns : List Turn) (frames : List Frame) (entry : Option ClientConnection)
    (task : ConnectionTask) : Prop where
  reads : ∃ rest, task.phase.Pending rest ∧
    Reads kept events start task.next (turns.filterMap Turn.reading ++ rest)
  frames : turns.filterMap Turn.frame = frames
  outbox : task.outbox = (turns.foldl Alone.step alone).outbox
  entry : task.phase ≠ .removed → entry = some (turns.foldl Alone.step alone).client

section Steps

variable {kept start : Nat} {events events' : List FullEvent} {alone : Alone} {turns : List Turn}
  {frames : List Frame} {entry entry' : Option ClientConnection} {task task' : ConnectionTask}

/-- A task in its loop follows the connection that it is. -/
theorem follows_nil (kept : Nat) (task : ConnectionTask) {client : ClientConnection}
    (hp : task.phase = .looping) (hn : task.next ≤ events.length) (he : entry = some client) :
    Follows kept events ⟨client, task.outbox⟩ task.next [] [] entry task where
  reads := ⟨[], by rw [hp, Phase.Pending], .nil hn⟩
  frames := rfl
  outbox := rfl
  entry _ := he

/-- Sending an event leaves the turns as they are. -/
theorem Follows.send (h : Follows kept events alone start turns frames entry task)
    (event : FullEvent) :
    Follows kept (events ++ [event]) alone start turns frames entry task := by
  obtain ⟨rest, hp, hr⟩ := h.reads
  exact ⟨⟨rest, hp, hr.send event⟩, h.frames, h.outbox, h.entry⟩

/-- The table entry does not matter to a task that has ended. -/
theorem Follows.of_over (h : Follows kept events alone start turns frames entry task)
    (ho : task.phase.Over) : Follows kept events alone start turns frames entry' task := by
  obtain ⟨rest, hp, hr⟩ := h.reads
  refine ⟨⟨rest, hp, hr⟩, h.frames, h.outbox, fun hne ↦ ?_⟩
  obtain ho | ho := ho
  · exact absurd ho hne
  · rw [ho] at hp
    exact hp.elim

/-- What happens to others leaves a connection as it is. -/
theorem Follows.other (h : Follows kept events alone start turns frames entry task)
    (hentry : entry' = entry ∨ task.phase.Over)
    (he : events' = events ∨ ∃ event, events' = events ++ [event]) :
    Follows kept events' alone start turns frames entry' task := by
  have hsame : Follows kept events alone start turns frames entry' task := by
    obtain rfl | hover := hentry
    · exact h
    · exact h.of_over hover
  obtain rfl | ⟨event, rfl⟩ := he
  · exact hsame
  · exact hsame.send event

/-- A turn of the task is a turn of the connection, or half of one, and events are missed only
where the task receives while it is further behind than the channel keeps. -/
theorem Follows.turn (h : Follows kept events alone start turns frames entry task)
    {turn : TaskTurn} (ht : Takes kept events task entry turn task' entry') :
    ∃ turns',
      Follows kept events alone start turns' (frames ++ turn.frame.toList) entry' task' ∧
        ∀ missed, .missed missed ∈ turns' →
          .missed missed ∈ turns ∨ turn = .recv ∧ task.next + kept < events.length := by
  obtain ⟨⟨rest, hrest, hreads⟩, hframes, houtbox, hentry⟩ := h
  cases ht with
  | subscribe hp | welcomed hp | failed hp =>
    rw [hp] at hrest
    exact hrest.elim
  | read hp frame now written =>
    rw [hp, Phase.Pending] at hrest
    subst hrest
    have hentry := hentry (by simp [hp])
    refine ⟨turns ++ [.read frame now written], ⟨⟨[], ?_, ?_⟩, ?_, ?_, ?_⟩, by simp⟩
    · cases frame.ends <;> simp [Phase.Pending]
    · simpa [List.filterMap_cons, Turn.reading] using hreads
    · simp [hframes, Turn.frame, TaskTurn.frame]
    · simp [Alone.step, houtbox, hentry]
    · simp [Alone.step, hentry]
  | received hp hr =>
    rw [hp, Phase.Pending] at hrest
    subst hrest
    rw [List.append_nil] at hreads
    refine ⟨turns, ⟨⟨_, rfl, hreads.recv_value hr⟩, ?_, houtbox, fun _ ↦ hentry (by simp [hp])⟩,
      fun _ ↦ .inl⟩
    simp [hframes, TaskTurn.frame]
  | @lagged hp missed next hr =>
    rw [hp, Phase.Pending] at hrest
    subst hrest
    rw [List.append_nil] at hreads
    obtain ⟨hnext, hkept, -⟩ := Base.recv_lagged hr
    refine ⟨turns ++ [.missed ((events.take next).drop task.next)],
      ⟨⟨[], ?_, ?_⟩, ?_, ?_, ?_⟩, fun _ _ ↦ .inr ⟨rfl, by omega⟩⟩
    · rw [hp, Phase.Pending]
    · simpa [Turn.reading] using hreads.recv_lagged hr
    · simp [hframes, List.filterMap_cons, Turn.frame, TaskTurn.frame]
    · simpa [Alone.step] using houtbox
    · intro _
      simpa [Alone.step] using hentry (by simp [hp])
  | @delivered event hp hs =>
    rw [hp, Phase.Pending] at hrest
    subst hrest
    have hentry := hentry (by simp [hp])
    rw [hentry, Option.any_some] at hs
    refine ⟨turns ++ [.got event], ⟨⟨[], rfl, ?_⟩, ?_, ?_, ?_⟩, by simp⟩
    · simpa [Turn.reading] using hreads
    · simp [hframes, List.filterMap_cons, Turn.frame, TaskTurn.frame]
    · simp [Alone.step, houtbox, hs]
    · simp [Alone.step, hentry, hs]
  | broken hp =>
    rw [hp, Phase.Pending] at hrest
    refine ⟨turns, ⟨⟨rest, .inr ⟨_, hrest⟩, hreads⟩, ?_, houtbox, fun _ ↦ hentry (by simp [hp])⟩,
      fun _ ↦ .inl⟩
    simp [hframes, TaskTurn.frame]
  | @skipped event hp hs written =>
    rw [hp, Phase.Pending] at hrest
    subst hrest
    have hentry := hentry (by simp [hp])
    rw [hentry, Option.any_some] at hs
    refine ⟨turns ++ [.got event], ⟨⟨[], rfl, ?_⟩, ?_, ?_, ?_⟩, by simp⟩
    · simpa [Turn.reading] using hreads
    · simp [hframes, List.filterMap_cons, Turn.frame, TaskTurn.frame]
    · simp [Alone.step, houtbox, hs]
    · simp [Alone.step, hentry, hs]
  | remove hp =>
    rw [hp, Phase.Pending] at hrest
    refine ⟨turns, ⟨⟨rest, hrest, hreads⟩, ?_, houtbox, fun hne ↦ absurd rfl hne⟩, fun _ ↦ .inl⟩
    simp [hframes, TaskTurn.frame]

end Steps

/-- A task over the frames that it has read and its table entry, where `since` are the numbers
of events after which it subscribed: before its loop it has written nothing and its client is
new, and from its loop on it follows a connection that began with the welcome. -/
def ConnectionTask.Served (kept : Nat) (events : List FullEvent) (since : Nat → Prop)
    (frames : List Frame) (entry : Option ClientConnection) (task : ConnectionTask) : Prop :=
  match task.phase with
  | .inserted => task.outbox = [] ∧ frames = [] ∧ ∃ connected, entry = some (.new connected)
  | .subscribed => task.outbox = [] ∧ frames = [] ∧ since task.next ∧ task.next ≤ events.length ∧
      ∃ connected, entry = some (.new connected)
  | .failed => task.outbox = [] ∧ frames = []
  | .looping | .holding _ | .leaving | .removed => ∃ connected welcomed start turns, since start ∧
      Follows kept events ⟨.new connected, [.text (welcome welcomed)]⟩ start turns frames entry task

section Steps

variable {kept : Nat} {events events' : List FullEvent} {since since' : Nat → Prop}
  {frames : List Frame}  {entry entry' : Option ClientConnection} {task task' : ConnectionTask}

/-- Sending an event keeps this. -/
theorem ConnectionTask.Served.send (h : task.Served kept events since frames entry)
    (event : FullEvent) : task.Served kept (events ++ [event]) since frames entry := by
  unfold Served at h ⊢
  cases hp : task.phase with
  | inserted | failed =>
    rw [hp] at h
    exact h
  | subscribed =>
    rw [hp] at h
    obtain ⟨ho, hf, hs, hn, he⟩ := h
    exact ⟨ho, hf, hs, hn.trans (by simp), he⟩
  | looping | holding | leaving | removed =>
    rw [hp] at h
    obtain ⟨connected, welcomed, start, turns, hs, hfollows⟩ := h
    exact ⟨connected, welcomed, start, turns, hs, hfollows.send event⟩

/-- The table entry does not matter to a task that has ended. -/
theorem ConnectionTask.Served.of_over (h : task.Served kept events since frames entry)
    (ho : task.phase.Over) : task.Served kept events since frames entry' := by
  unfold Served at h ⊢
  rcases ho with hp | hp
  · rw [hp] at h ⊢
    obtain ⟨connected, welcomed, start, turns, hs, hf⟩ := h
    exact ⟨connected, welcomed, start, turns, hs, hf.of_over (.inl hp)⟩
  · rw [hp] at h ⊢
    exact h

/-- What happens to others keeps this. -/
theorem ConnectionTask.Served.other (h : task.Served kept events since frames entry)
    (hentry : entry' = entry ∨ task.phase.Over)
    (he : events' = events ∨ ∃ event, events' = events ++ [event]) :
    task.Served kept events' since frames entry' := by
  have hsame : task.Served kept events since frames entry' := by
    obtain rfl | hover := hentry
    · exact h
    · exact h.of_over hover
  obtain rfl | ⟨event, rfl⟩ := he
  · exact hsame
  · exact hsame.send event

/-- A task that has begun its loop is served if it follows a connection. -/
theorem ConnectionTask.served_iff (hp : task.phase.Begun) :
    task.Served kept events since frames entry ↔ ∃ connected welcomed start turns, since start ∧
      Follows kept events ⟨.new connected, [.text (welcome welcomed)]⟩ start turns frames entry
        task := by
  unfold Served
  cases hc : task.phase with
  | inserted | subscribed | failed =>
    rw [hc] at hp
    exact hp.elim
  | looping | holding | leaving | removed => rfl

/-- More may be said of when a task subscribed. -/
theorem ConnectionTask.Served.mono (h : task.Served kept events since frames entry)
    (hs : ∀ n, since n → since' n) : task.Served kept events since' frames entry := by
  unfold Served at h ⊢
  cases hp : task.phase with
  | inserted | failed =>
    rw [hp] at h
    exact h
  | subscribed =>
    rw [hp] at h
    obtain ⟨ho, hf, hsince, hn, he⟩ := h
    exact ⟨ho, hf, hs _ hsince, hn, he⟩
  | looping | holding | leaving | removed =>
    rw [hp] at h
    obtain ⟨connected, welcomed, start, turns, hsince, hfollows⟩ := h
    exact ⟨connected, welcomed, start, turns, hs _ hsince, hfollows⟩

/-- A turn of the task keeps this, and it may subscribe it. -/
theorem ConnectionTask.Served.turn (h : task.Served kept events since frames entry)
    {turn : TaskTurn} (ht : Takes kept events task entry turn task' entry')
    (hsub : turn = .subscribe → since events.length) :
    task'.Served kept events since (frames ++ turn.frame.toList) entry' := by
  have hloop {phase : Phase} (hp : task.phase = phase) (hb : phase.Begun)
      (hb' : task'.phase.Begun) :
      task'.Served kept events since (frames ++ turn.frame.toList) entry' := by
    subst hp
    obtain ⟨connected, welcomed, start, turns, hs, hfollows⟩ := (served_iff hb).mp h
    obtain ⟨turns', hfollows', -⟩ := hfollows.turn ht
    exact (served_iff hb').mpr ⟨connected, welcomed, start, turns', hs, hfollows'⟩
  cases ht with
  | subscribe hp =>
    unfold Served at h ⊢
    rw [hp] at h
    obtain ⟨ho, hf, he⟩ := h
    exact ⟨ho, by simp [hf, TaskTurn.frame], hsub rfl, Nat.le_refl _, he⟩
  | welcomed hp now =>
    unfold Served at h ⊢
    rw [hp] at h
    obtain ⟨ho, hf, hs, hn, connected, he⟩ := h
    refine ⟨connected, now, task.next, [], hs, ?_⟩
    have hnil := follows_nil kept { task with
      phase := .looping, outbox := task.outbox ++ [.text (welcome now)] } rfl hn he
    rw [hf]
    simpa [ho, TaskTurn.frame] using hnil
  | failed hp =>
    unfold Served at h ⊢
    rw [hp] at h
    obtain ⟨ho, hf, -⟩ := h
    exact ⟨ho, by simp [hf, TaskTurn.frame]⟩
  | read hp frame =>
    apply hloop hp trivial
    cases frame.ends <;> trivial
  | received hp => exact hloop hp trivial trivial
  | lagged hp => exact hloop hp trivial (by rw [hp]; trivial)
  | delivered hp => exact hloop hp trivial trivial
  | broken hp => exact hloop hp trivial trivial
  | skipped hp => exact hloop hp trivial trivial
  | remove hp => exact hloop hp trivial trivial

end Steps

/-! ### All connections -/

/-- The tasks after another one is added. -/
theorem getElem?_concat_iff {tasks : List ConnectionTask} {new task : ConnectionTask} {k : Nat} :
    (tasks ++ [new])[k]? = some task ↔
      tasks[k]? = some task ∨ k = tasks.length ∧ task = new := by
  rw [List.getElem?_append]
  split
  · next h => simp [h.ne]
  · next h =>
    rw [List.getElem?_eq_none_iff.mpr (Nat.le_of_not_lt h), List.getElem?_singleton]
    have hk : k - tasks.length = 0 ↔ k = tasks.length := by omega
    simp [hk, eq_comm]

/-- The tasks after one of them has changed. -/
theorem getElem?_set_iff {tasks : List ConnectionTask} {old new task : ConnectionTask} {j k : Nat}
    (h : tasks[k]? = some old) :
    (tasks.set k new)[j]? = some task ↔
      j = k ∧ task = new ∨ j ≠ k ∧ tasks[j]? = some task := by
  have hk := (List.getElem?_eq_some_iff.mp h).1
  rw [List.getElem?_set]
  by_cases hj : k = j
  · simp [hj, hj ▸ hk, eq_comm]
  · simp [hj, Ne.symm hj]

@[simp] theorem framesOf_concat (k : Nat) (es : List ServerEvent) (e : ServerEvent) :
    framesOf k (es ++ [e]) = framesOf k es ++ (e.frameOf k).toList := by
  unfold framesOf
  rw [List.filterMap_append]
  cases h : e.frameOf k <;> simp [h]

namespace WebSocketServer

variable {kept : Nat} {es : List ServerEvent} {e : ServerEvent} {s s' : WebSocketServer} {k : Nat}
  {task : ConnectionTask}

/-- Of two tasks for one address the earlier one has ended. -/
def EarlierOver (s : WebSocketServer) : Prop :=
  ∀ (i j : Nat) (t u : ConnectionTask), i < j → s.tasks[i]? = some t → s.tasks[j]? = some u →
    t.clientId = u.clientId → t.phase.Over

/-- Every event keeps this. -/
theorem earlierOver_step (h : s.EarlierOver) (hs : Happens kept s e s') : s'.EarlierOver := by
  obtain ⟨hfree, hs⟩ := hs
  intro i j t u hij ht hu he
  cases e with
  | accept clientId now =>
    cases hs
    rcases getElem?_concat_iff.mp ht with ht | ⟨rfl, rfl⟩
    · rcases getElem?_concat_iff.mp hu with hu | ⟨rfl, rfl⟩
      · exact h i j t u hij ht hu he
      · exact hfree t (List.mem_of_getElem? ht) he
    · rcases getElem?_concat_iff.mp hu with hu | ⟨rfl, rfl⟩
      · have := (List.getElem?_eq_some_iff.mp hu).1
        omega
      · omega
  | send event =>
    cases hs
    exact h i j t u hij ht hu he
  | turn k turn =>
    obtain ⟨task, task', entry, hk, htakes, rfl⟩ := step_turn hs
    have hid := htakes.clientId_eq
    rcases (getElem?_set_iff hk).mp ht with ⟨rfl, rfl⟩ | ⟨-, hold⟩
    · -- The task that takes a turn has not ended, so no later one has its address.
      rcases (getElem?_set_iff hk).mp hu with ⟨rfl, rfl⟩ | ⟨-, hlater⟩
      · omega
      · exact absurd (h _ j _ u hij hk hlater (hid.symm.trans he)) htakes.not_over
    · rcases (getElem?_set_iff hk).mp hu with ⟨rfl, rfl⟩ | ⟨-, hlater⟩
      · exact h i _ t _ hij hold hk (he.trans hid)
      · exact h i j t u hij hold hlater he

theorem earlierOver_of_run (h : ServerRun kept es s) : s.EarlierOver := by
  refine h.invariant EarlierOver ?_ fun _ _ _ hi hs ↦ earlierOver_step hi hs
  intro i j t u _ ht
  cases ht

/-- What an event does to a task: the task takes a turn, or it stays as it is, and so does its
entry unless it has ended, while another event may be sent. -/
theorem step_task (h : s.EarlierOver) (hs : Happens kept s e s') (hk : s.tasks[k]? = some task) :
    (∃ turn task', e = .turn k turn ∧ s'.tasks[k]? = some task' ∧ s'.eventTx = s.eventTx ∧
      Takes kept s.eventTx task (s.clients.lookup task.clientId) turn task'
        (s'.clients.lookup task'.clientId)) ∨
    (e.frameOf k = none ∧ s'.tasks[k]? = some task ∧
      (s'.clients.lookup task.clientId = s.clients.lookup task.clientId ∨ task.phase.Over) ∧
      (s'.eventTx = s.eventTx ∨ ∃ event, s'.eventTx = s.eventTx ++ [event])) := by
  obtain ⟨hfree, hs⟩ := hs
  cases e with
  | accept clientId now =>
    cases hs
    refine .inr ⟨rfl, getElem?_concat_iff.mpr (.inl hk), ?_, .inl rfl⟩
    by_cases hid : task.clientId = clientId
    · exact .inr (hfree task (List.mem_of_getElem? hk) hid)
    · exact .inl (Finmap.lookup_insert_of_ne _ hid)
  | send event =>
    cases hs
    exact .inr ⟨rfl, hk, .inl rfl, .inr ⟨event, rfl⟩⟩
  | turn j turn =>
    obtain ⟨other, other', entry, hj, htakes, rfl⟩ := step_turn hs
    by_cases hjk : k = j
    · subst hjk
      cases hk.symm.trans hj
      refine .inl ⟨turn, other', rfl, (getElem?_set_iff hj).mpr (.inl ⟨rfl, rfl⟩), rfl, ?_⟩
      dsimp only
      rwa [lookup_setEntry, if_pos htakes.clientId_eq]
    · have hne : j ≠ k := Ne.symm hjk
      refine .inr ⟨by simp [ServerEvent.frameOf, hne],
        (getElem?_set_iff hj).mpr (.inr ⟨hjk, hk⟩), ?_, .inl rfl⟩
      dsimp only
      rw [lookup_setEntry]
      split
      · next hid =>
        obtain hlt | hlt := Nat.lt_or_gt_of_ne hjk
        · exact .inr (h k j task other hlt hk hj hid)
        · exact absurd (h j k other task hlt hj hk hid.symm) htakes.not_over
      · exact .inl rfl

/-- What an event does where there is no task yet: one is accepted, or there is still none. -/
theorem step_no_task (hs : Happens kept s e s') (hk : s.tasks[k]? = none) :
    e.frameOf k = none ∧ (s'.tasks[k]? = none ∨ ∃ clientId now,
      s'.tasks[k]? = some ⟨clientId, .inserted, 0, []⟩ ∧
        s'.clients.lookup clientId = some (.new now)) := by
  obtain ⟨-, hs⟩ := hs
  have hlen := List.getElem?_eq_none_iff.mp hk
  cases e with
  | accept clientId now =>
    cases hs
    refine ⟨rfl, ?_⟩
    by_cases hl : k = s.tasks.length
    · exact .inr ⟨clientId, now, getElem?_concat_iff.mpr (.inr ⟨hl, rfl⟩), Finmap.lookup_insert _⟩
    · left
      rw [List.getElem?_eq_none_iff, List.length_append, List.length_singleton]
      omega
  | send event =>
    cases hs
    exact ⟨rfl, .inl hk⟩
  | turn j turn =>
    obtain ⟨task, task', entry, hj, -, rfl⟩ := step_turn hs
    have hlt := (List.getElem?_eq_some_iff.mp hj).1
    have hne : j ≠ k := by omega
    refine ⟨by simp [ServerEvent.frameOf, hne], .inl ?_⟩
    rwa [List.getElem?_eq_none_iff, List.length_set]

/-- What is known of a connection: it is served, or it is not there and no frame has been
read. -/
def Known (kept : Nat) (k : Nat) (es : List ServerEvent) (s : WebSocketServer) : Prop :=
  match s.tasks[k]? with
  | some task => task.Served kept s.eventTx (SubscribedAfter k es) (framesOf k es)
      (s.clients.lookup task.clientId)
  | none => framesOf k es = []

/-- The channel has been sent the events of the run. -/
theorem eventTx_of_run (h : ServerRun kept es s) : s.eventTx = sentEvents es := by
  refine h.historyInvariant (fun es s ↦ s.eventTx = sentEvents es) rfl ?_
  rintro es s e s' hi ⟨-, hs⟩
  rw [sentEvents, List.filterMap_append, ← sentEvents, ← hi]
  cases e with
  | accept clientId now =>
    cases hs
    simp [ServerEvent.sent]
  | send event =>
    cases hs
    simp [ServerEvent.sent, send]
  | turn k turn =>
    obtain ⟨task, task', entry, -, -, rfl⟩ := step_turn hs
    simp [ServerEvent.sent]

/-- Every event keeps what is known. -/
theorem known_step (hr : ServerRun kept es s) (h : Known kept k es s) (hs : Happens kept s e s') :
    Known kept k (es ++ [e]) s' := by
  have ho := earlierOver_of_run hr
  unfold Known at h ⊢
  rw [framesOf_concat]
  cases hk : s.tasks[k]? with
  | none =>
    rw [hk] at h
    obtain ⟨hf, hk' | ⟨clientId, now, hk', hl⟩⟩ := step_no_task hs hk
    · rw [hk', hf]
      simpa using h
    · rw [hk', hf]
      exact ⟨rfl, by simpa using h, now, hl⟩
  | some task =>
    rw [hk] at h
    obtain ⟨turn, task', rfl, hk', he, htakes⟩ | ⟨hf, hk', hentry, he⟩ := step_task ho hs hk
    · have hsub : turn = .subscribe →
          SubscribedAfter k (es ++ [.turn k turn]) s.eventTx.length := by
        rintro rfl
        exact ⟨es, [], rfl, by rw [eventTx_of_run hr]⟩
      have hturn := (h.mono fun _ hs ↦ hs.concat (.turn k turn)).turn htakes hsub
      rw [hk', he, ServerEvent.frameOf, if_pos rfl]
      exact hturn
    · rw [hk', hf, Option.toList_none, List.append_nil]
      exact (h.other hentry he).mono fun _ hs ↦ hs.concat e

theorem known_of_run (h : ServerRun kept es s) (k : Nat) : Known kept k es s := by
  induction h with
  | nil => exact (rfl : framesOf k [] = [])
  | snoc hr hs ih => exact known_step hr ih hs

/-- In every run, a connection that has begun is served as if it were alone: what is written to
it and its table entry follow from the frames that it has read and a stretch of the events
sent, from the first one after it subscribed on, and the events that it has missed were followed
by all that the channel keeps. -/
theorem follows_of_run (h : ServerRun kept es s) (hk : s.tasks[k]? = some task)
    (hb : task.phase.Begun) :
    ∃ connected welcomed start turns, SubscribedAfter k es start ∧
      Follows kept (sentEvents es) ⟨.new connected, [.text (welcome welcomed)]⟩ start turns
        (framesOf k es) (s.clients.lookup task.clientId) task := by
  have hknown := known_of_run h k
  unfold Known at hknown
  rw [hk, eventTx_of_run h] at hknown
  exact (ConnectionTask.served_iff hb).mp hknown

/-- Whenever a connection comes to receive an event, it is at most the capacity of the channel
behind. -/
def KeepsUp (k : Nat) (s : WebSocketServer) (e : ServerEvent) : Prop :=
  ∀ task, e = .turn k .recv → s.tasks[k]? = some task →
    s.eventTx.length ≤ task.next + eventCapacity

/-- From a state in which a connection waits in its loop, a run in which it keeps up lets it
follow the connection that it was there, and miss nothing. -/
theorem follows_since (hkept : eventCapacity ≤ kept) (ho : s.EarlierOver)
    {client : ClientConnection} (hk : s.tasks[k]? = some task) (hp : task.phase = .looping)
    (hn : task.next ≤ s.eventTx.length) (hc : s.clients.lookup task.clientId = some client)
    (h : Run (Guarded (KeepsUp k) (Happens kept)) s es s') :
    s'.EarlierOver ∧ ∃ task' turns, s'.tasks[k]? = some task' ∧
      Follows kept s'.eventTx ⟨client, task.outbox⟩ task.next turns (framesOf k es)
        (s'.clients.lookup task'.clientId) task' ∧ ∀ missed, .missed missed ∉ turns := by
  refine h.historyInvariant (fun es s' ↦ s'.EarlierOver ∧ ∃ task' turns,
    s'.tasks[k]? = some task' ∧ Follows kept s'.eventTx ⟨client, task.outbox⟩ task.next turns
      (framesOf k es) (s'.clients.lookup task'.clientId) task' ∧ ∀ missed, .missed missed ∉ turns)
    ⟨ho, task, [], hk, follows_nil _ _ hp hn hc, by simp⟩ ?_
  rintro es s e s' ⟨ho, task, turns, hk, hfollows, hnone⟩ ⟨hkeeps, hs⟩
  refine ⟨earlierOver_step ho hs, ?_⟩
  rw [framesOf_concat]
  obtain ⟨turn, task', rfl, hk', he, htakes⟩ | ⟨hf, hk', hentry, he⟩ := step_task ho hs hk
  · obtain ⟨turns', hturn, hmissed⟩ := hfollows.turn htakes
    refine ⟨task', turns', hk', ?_, fun missed hm ↦ ?_⟩
    · rw [he, ServerEvent.frameOf, if_pos rfl]
      exact hturn
    · obtain hm | ⟨rfl, hlt⟩ := hmissed missed hm
      · exact hnone missed hm
      · have hle := hkeeps task rfl hk
        omega
  · refine ⟨task, turns, hk', ?_, hnone⟩
    rw [hf, Option.toList_none, List.append_nil]
    exact hfollows.other hentry he

/-- While its client says nothing and it is at most the capacity of the channel behind whenever
it receives, a connection is sent the events of its channels, and no others, each once and in
the order in which they were sent. -/
theorem sends_exactly (hkept : eventCapacity ≤ kept) (h : ServerRun kept es s)
    (hk : s.tasks[k]? = some task) (hp : task.phase = .looping) {client : ClientConnection}
    (hc : s.clients.lookup task.clientId = some client) {es' : List ServerEvent}
    (h' : Run (Guarded (KeepsUp k) (Happens kept)) s es' s') (hquiet : framesOf k es' = [])
    {task' : ConnectionTask} (hk' : s'.tasks[k]? = some task') (hp' : task'.phase = .looping) :
    task'.outbox = task.outbox ++ (((s'.eventTx.take task'.next).drop task.next).filter
      (client.shouldSend ·.kind)).map (.text ·.message) := by
  obtain ⟨_, _, _, _, -, hbefore⟩ := follows_of_run h hk (by rw [hp]; trivial)
  obtain ⟨_, -, hreads₀⟩ := hbefore.reads
  rw [← eventTx_of_run h] at hreads₀
  obtain ⟨-, task₁, turns, hk₁, hfollows, hnone⟩ := follows_since hkept (earlierOver_of_run h) hk hp
    hreads₀.next_le hc h'
  cases hk'.symm.trans hk₁
  obtain ⟨rest, hrest, hreads⟩ := hfollows.reads
  rw [hp', Phase.Pending] at hrest
  subst hrest
  rw [List.append_nil] at hreads
  have hlog : ∀ missed, .missed missed ∉ turns.filterMap Turn.reading := by
    intro missed hm
    obtain ⟨turn, hturn, hr⟩ := List.mem_filterMap.mp hm
    cases turn with
    | missed events =>
      cases hr
      exact hnone _ hturn
    | read | got => cases hr
  rw [hfollows.outbox, Alone.foldl_step_of_no_frame _ (hfollows.frames.trans hquiet),
    hreads.values_eq hlog]

/-- With no more events than the channel keeps, every connection keeps up. -/
theorem keepsUp_of_length_le {e : ServerEvent} (h : s.eventTx.length ≤ eventCapacity) :
    KeepsUp k s e :=
  fun task _ _ ↦ h.trans (Nat.le_add_left _ task.next)

/-- Statistics of the network. -/
def sampleStats : FullEvent := .networkStats 3 1000 7 12

/-- A client connects, after an event has been sent, and subscribes to the blocks. -/
def openingEvents : List ServerEvent :=
  [.send sampleStats, .accept "127.0.0.1:50000" 1, .turn 0 .subscribe, .turn 0 (.welcome 2 true),
    .turn 0 (.read (.text (some (ClientMessage.subscribe .blocks).request)) 3 true)]

/-- What is written to it until then. -/
def openingMessages : List Outgoing :=
  [.text (welcome 2), .text (.object [("type", .string "subscribed"), ("channel", .string "blocks"),
    ("timestamp", word 3)])]

/-- Its task then. -/
def openedTask : ConnectionTask := ⟨"127.0.0.1:50000", .looping, 1, openingMessages⟩

/-- The server then. -/
def openedServer : WebSocketServer where
  eventTx := [sampleStats]
  clients := Finmap.insert "127.0.0.1:50000" ⟨[.blocks], 1⟩ ∅
  tasks := [openedTask]

theorem getElem?_opened : openedServer.tasks[0]? = some openedTask := rfl

theorem run_opened : ServerRun eventCapacity openingEvents openedServer := by
  refine .snoc (.snoc (.snoc (.snoc (.snoc .nil ⟨trivial, rfl⟩) ⟨?_, rfl⟩) ⟨trivial, rfl⟩)
    ⟨trivial, rfl⟩) ⟨trivial, ?_⟩
  · rfl
  · intro task ht
    cases ht

/-- The connection is served, and the event from before does not count. -/
theorem follows_opened :
    ∃ connected welcomed start turns, SubscribedAfter 0 openingEvents start ∧
      Follows eventCapacity [sampleStats] ⟨.new connected, [.text (welcome welcomed)]⟩ start turns
        [.text (some (ClientMessage.subscribe .blocks).request)]
        (openedServer.clients.lookup "127.0.0.1:50000") openedTask :=
  follows_of_run run_opened getElem?_opened trivial

/-- The event of a block. -/
def sampleBlock : FullEvent := .newBlock "00ab" 7 1700000000 "SLVRa" 50_000_000_000

/-- Statistics and a block are sent, and the connection receives both. -/
def blockEvents : List ServerEvent :=
  [.send sampleStats, .send sampleBlock, .turn 0 .recv, .turn 0 (.deliver true), .turn 0 .recv,
    .turn 0 (.deliver true)]

/-- The task after these events. -/
def fedTask : ConnectionTask :=
  { openedTask with next := 3, outbox := openingMessages ++ [.text sampleBlock.message] }

/-- The server after these events. -/
def fedServer : WebSocketServer :=
  { openedServer with
    eventTx := [sampleStats, sampleStats, sampleBlock]
    tasks := [fedTask] }

theorem getElem?_fed : fedServer.tasks[0]? = some fedTask := rfl

set_option maxRecDepth 4000 in
theorem run_blocks :
    Run (Guarded (KeepsUp 0) (Happens eventCapacity)) openedServer blockEvents fedServer := by
  have hkeeps {s : WebSocketServer} {e : ServerEvent} (h : s.eventTx.length ≤ 3) : KeepsUp 0 s e :=
    keepsUp_of_length_le (h.trans (by decide))
  refine .snoc (.snoc (.snoc (.snoc (.snoc (.snoc .nil ⟨hkeeps ?_, trivial, rfl⟩)
    ⟨hkeeps ?_, trivial, rfl⟩) ⟨hkeeps ?_, trivial, rfl⟩) ⟨hkeeps ?_, trivial, rfl⟩)
    ⟨hkeeps ?_, trivial, rfl⟩) ⟨hkeeps ?_, trivial, rfl⟩
  all_goals decide

/-- Of the two events it is sent the block. -/
theorem sends_exactly_block : fedTask.outbox = openedTask.outbox ++
    (((fedServer.eventTx.take fedTask.next).drop openedTask.next).filter
      (ClientConnection.shouldSend ⟨[.blocks], 1⟩ ·.kind)).map (.text ·.message) :=
  sends_exactly (Nat.le_refl _) run_opened getElem?_opened rfl (Finmap.lookup_insert _) run_blocks
    rfl getElem?_fed rfl

end WebSocketServer
end SilverPow.WebSocket
