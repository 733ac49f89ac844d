-- The law of the streams: exactly once and in order. All streams of a run
-- share one queue, a replay does not know what is still in it, and only the
-- first task of the run fills it. So the law holds as long as a stream that
-- starts to read the queue finds in it just what its client still lacks, and
-- then reads it alone.
import Orchestra.Streams
import Mathlib.Data.List.ReduceOption

open dicts machine orchestra.events orchestra.compiled orchestra.runs orchestra.server
open orchestra.streams

namespace orchestra.delivery

/-! ## What the law says -/

/-- The events of the run after the starting point of the client. -/
def owed (s : Streaming) (c : Client) : List WorkflowEvent := s.stored.filter c.wants

/-- How many steps of a connection there are until its end marker arrives, at
most, if nothing else happens. -/
def left (s : Streaming) (a : Connection) : Nat :=
  a.wire.length + 2 * match a.phase with
    | .opening _ => s.stored.length + s.queue.length + 3
    | .fetching _ => s.stored.length + s.queue.length + 2
    | .reading replay => replay.length + s.queue.length + 1
    | .finished => 0

def stepsLeft (s : Streaming) (k : Nat) : Nat := (s.connections[k]?).elim 0 (left s)

/-- Every client has a first part of its events, each once and in their order,
and all of them once it got the end marker. When the run is over, a client that
listens and has not got it never waits in vain: its stream can take a step that
brings the end marker nearer. -/
structure Delivers (s : Streaming) : Prop where
  inOrder : ∀ c ∈ s.clients, c.received <+: owed s c
  complete : ∀ c ∈ s.clients, c.done = true → c.received = owed s c
  moves : (∀ u ∈ s.run.tasks, u.ended ≠ none) → ∀ (k : Nat) (a : Connection),
    s.connections[k]? = some a → a.listening = true →
      ∃ t, (s.serve k = some t ∨ s.receive k = some t) ∧ stepsLeft t k < stepsLeft s k

/-! ## The condition -/

/-- The events that leave the queue from now on, if nothing else is stored. -/
def ahead (s : Streaming) : List WorkflowEvent := s.queue.reduceOption ++ s.unput

/-- An end marker is in the queue, or a task is live. -/
def EndComes (s : Streaming) : Prop := none ∈ s.queue ∨ ∃ u ∈ s.run.tasks, u.ended = none

/-- The client of the connection listens, and its generator is past the store. -/
def Reads (a : Connection) : Prop := a.listening = true ∧ ∃ replay, a.phase = .reading replay

/-- What its client got, its replay and the queue together are what a connection
owes. -/
structure Ready (s : Streaming) (a : Connection) (replay : List WorkflowEvent) : Prop where
  whole : ∀ c, s.clients[a.client]? = some c →
    c.received ++ eventsOf a.wire ++ replay ++ ahead s = owed s c
  ends : EndComes s

/-- A generator starts to read the queue when it is ready. It takes from the
queue when no other connection reads it, and the end marker when it is last. -/
def ServeAllowed (s : Streaming) (k : Nat) (a : Connection) : Prop :=
  match a.phase with
  | .opening header => a.listening = true → opened header = .reading [] → Ready s a []
  | .fetching n => a.listening = true → Ready s a (getEvents s.stored n)
  | .reading [] => (∀ (j : Nat) (b : Connection), s.connections[j]? = some b → Reads b → j = k) ∧
    (a.listening = true → s.queue.head? = some none → ahead s = [])
  | _ => True

/-- An event that is stored goes into the queue when a client that reads the
queue is to get it, and only then. No client whose end marker was sent is to get
it. -/
structure RecordAllowed (s : Streaming) (broadcast : Bool) (e : WorkflowEvent) : Prop where
  reading : ∀ a ∈ s.connections, Reads a → ∀ c, s.clients[a.client]? = some c →
    c.wants e = broadcast
  finished : ∀ a ∈ s.connections, a.listening = true → a.phase = .finished →
    ∀ c, s.clients[a.client]? = some c → c.wants e = false
  done : ∀ c ∈ s.clients, c.done = true → c.wants e = false

/-- While a client reads the queue, the first task does not end between the
store and the queue, and no task ends before its first step, unless another end
marker comes. -/
def EndAllowed (s : Streaming) (i : Nat) : Prop :=
  (∃ a ∈ s.connections, Reads a) → (i = 0 → s.unput = []) ∧
    ((s.run.tasks[i]?).any (·.entered) = true ∨ none ∈ s.queue ∨
      ∃ (j : Nat) (u : Task), j ≠ i ∧ s.run.tasks[j]? = some u ∧ u.ended = none)

def Allowed (runId : String) (s : Streaming) : StreamAction → Prop
  | .server (.ends i _) => EndAllowed s i
  | .emits i e => RecordAllowed s (i = 0) e
  | .forks sequenceNumber newRunId =>
    RecordAllowed s false (forkEvent runId sequenceNumber newRunId)
  | .serves k => ∀ a, s.connections[k]? = some a → ServeAllowed s k a
  | _ => True

/-! ## The invariant -/

/-- The events that a connection still brings to its client, if nothing else is
stored and nobody else takes from the queue. -/
def coming (a : Connection) (ahead : List WorkflowEvent) : List WorkflowEvent :=
  eventsOf a.wire ++ match a.phase with
    | .finished => []
    | .reading replay => replay ++ ahead
    | _ => ahead

/-- What holds of a connection whose client listens and has received the events
`received` of `owed`. -/
structure Standing (owed ahead : List WorkflowEvent) (ends : Prop) (received : List WorkflowEvent)
    (a : Connection) : Prop where
  inOrder : received ++ eventsOf a.wire <+: owed
  reading : ∀ replay, a.phase = .reading replay → received ++ coming a ahead = owed ∧ ends
  finished : a.phase = .finished → received ++ coming a ahead = owed
  wired : Wired a

structure Steady (s : Streaming) : Prop where
  inOrder : ∀ c ∈ s.clients, c.received <+: owed s c
  complete : ∀ c ∈ s.clients, c.done = true → c.received = owed s c
  standing : ∀ (k : Nat) (a : Connection), s.connections[k]? = some a → a.listening = true →
    ∃ c, s.clients[a.client]? = some c ∧ c.done = false ∧
      Standing (owed s c) (ahead s) (EndComes s) c.received a
  alone : ∀ (j k : Nat) (a b : Connection), s.connections[j]? = some a →
    s.connections[k]? = some b → a.listening = true → b.listening = true → a.client = b.client → j = k

theorem steady_started (G : CompiledGraph) : Steady (.started G) := by
  refine ⟨?_, ?_, ?_, ?_⟩
  · rintro c ⟨⟩
  · rintro c ⟨⟩
  · rintro k a ⟨⟩
  · rintro j k a b ⟨⟩

/-! ## One connection -/

section connection

variable {owed ahead received : List WorkflowEvent} {ends : Prop} {a b : Connection}

theorem coming_opening {header : Option Int} (hp : a.phase = .opening header) :
    coming a ahead = eventsOf a.wire ++ ahead := by
  unfold coming
  rw [hp]

theorem coming_reading {replay : List WorkflowEvent} (hp : a.phase = .reading replay) :
    coming a ahead = eventsOf a.wire ++ (replay ++ ahead) := by
  unfold coming
  rw [hp]

theorem coming_finished (hp : a.phase = .finished) : coming a ahead = eventsOf a.wire := by
  unfold coming
  rw [hp]
  exact List.append_nil _

/-- The generator of a connection that reads the queue, or starts to, changes
nothing of what the connection brings, if the end marker is last. -/
theorem coming_next {stored unput : List WorkflowEvent} {status : RunStatus}
    {queue queue' : Queue} (h : a.next stored status queue = some (b, queue'))
    (hopen : ∀ header, a.phase = .opening header → opened header = .reading [])
    (hfetch : ∀ n, a.phase ≠ .fetching n)
    (hlast : a.phase = .reading [] → queue.head? = some none →
      queue.reduceOption ++ unput = []) :
    coming b (queue'.reduceOption ++ unput) = coming a (queue.reduceOption ++ unput) := by
  rcases next_cases h with ⟨header, hp, rfl, rfl⟩ | ⟨n, hp, -, -⟩ |
    ⟨e, replay, hp, rfl, rfl⟩ | ⟨e, hp, rfl, rfl⟩ | ⟨hp, rfl, rfl⟩
  · rw [coming_opening hp, coming_reading (hopen header hp), eventsOf_concat]
    simp [Record.event?]
  · exact absurd hp (hfetch n)
  · rw [coming_reading hp, coming_reading rfl, eventsOf_concat]
    simp [Record.event?]
  · have hb : ({ a with wire := a.wire ++ [.event e] } : Connection).phase = .reading [] := hp
    rw [coming_reading hp, coming_reading hb, eventsOf_concat]
    simp [Record.event?, List.reduceOption_cons_of_some]
  · rw [coming_reading hp, hlast hp rfl, coming_finished rfl, eventsOf_concat]
    simp [Record.event?]

/-- A record arrives. -/
theorem coming_arrives {r : Record} (hw : a.wire = r :: b.wire) (hphase : b.phase = a.phase) :
    coming a ahead = r.event?.toList ++ coming b ahead := by
  unfold coming
  rw [hw, hphase, eventsOf_cons, List.append_assoc]

/-- The queue matters only to a connection that reads it. -/
theorem Standing.frame {ahead' : List WorkflowEvent} {ends' : Prop}
    (h : Standing owed ahead ends received a)
    (hreads : (∃ replay, a.phase = .reading replay) → ahead' = ahead ∧ (ends → ends')) :
    Standing owed ahead' ends' received a := by
  refine ⟨h.inOrder, ?_, ?_, h.wired⟩
  · intro replay hp
    obtain ⟨hwhole, hends⟩ := h.reading replay hp
    obtain ⟨rfl, hkeep⟩ := hreads ⟨replay, hp⟩
    exact ⟨hwhole, hkeep hends⟩
  · intro hp
    have hwhole := h.finished hp
    rw [coming_finished hp] at hwhole ⊢
    exact hwhole

theorem standing_new (client : Nat) (lastEventId : Option Int) (h : received <+: owed) :
    Standing owed ahead ends received (.new client lastEventId) := by
  refine ⟨?_, ?_, ?_, wired_new client lastEventId⟩
  · rw [show eventsOf (Connection.new client lastEventId).wire = [] from rfl, List.append_nil]
    exact h
  · intro replay hp
    cases hp
  · intro hp
    cases hp

/-- A connection that brings what its client lacks. -/
theorem standing_whole (hwhole : received ++ coming a ahead = owed)
    (hends : a.phase ≠ .finished → ends) (hwired : Wired a) :
    Standing owed ahead ends received a := by
  refine ⟨?_, ?_, fun _ => hwhole, hwired⟩
  · rw [← hwhole]
    unfold coming
    rw [← List.append_assoc]
    exact List.prefix_append _ _
  · intro replay hp
    exact ⟨hwhole, hends (by simp [hp])⟩

/-- A record arrives that is not the end marker. -/
theorem standing_arrives {r : Record} (h : Standing owed ahead ends received a)
    (hw : a.wire = r :: b.wire) (hphase : b.phase = a.phase) (hr : ∀ status, r ≠ .done status) :
    Standing owed ahead ends (received ++ r.event?.toList) b := by
  have hsplit : received ++ r.event?.toList ++ coming b ahead = received ++ coming a ahead := by
    rw [coming_arrives hw hphase, List.append_assoc]
  refine ⟨?_, ?_, ?_, wired_arrives h.wired hw hphase hr⟩
  · have hin := h.inOrder
    rw [hw, eventsOf_cons, ← List.append_assoc] at hin
    exact hin
  · intro replay hp
    rw [hsplit]
    exact h.reading replay (hphase ▸ hp)
  · intro hp
    rw [hsplit]
    exact h.finished (hphase ▸ hp)

/-- When the end marker arrives, nothing is missing. -/
theorem whole_at_end {status : RunStatus} {wire : List Record}
    (h : Standing owed ahead ends received a) (hw : a.wire = .done status :: wire) :
    received = owed := by
  obtain ⟨hp, rfl⟩ := wired_end h.wired hw
  have hwhole := h.finished hp
  rw [coming_finished hp, hw] at hwhole
  exact (List.append_nil received).symm.trans hwhole

end connection

/-! ## Steps that leave the clients as they are -/

section frame

variable {s t : Streaming}

theorem owed_congr (hstored : t.stored = s.stored) (c : Client) : owed t c = owed s c := by
  unfold owed
  rw [hstored]

/-- A step that changes neither the store nor a client nor a connection. -/
theorem steady_frame (h : Steady s) (hstored : t.stored = s.stored)
    (hclients : t.clients = s.clients) (hconnections : t.connections = s.connections)
    (hreads : (∃ a ∈ s.connections, Reads a) →
      ahead t = ahead s ∧ (EndComes s → EndComes t)) : Steady t := by
  refine ⟨?_, ?_, ?_, ?_⟩
  · rw [hclients]
    intro c hc
    rw [owed_congr hstored]
    exact h.inOrder c hc
  · rw [hclients]
    intro c hc
    rw [owed_congr hstored]
    exact h.complete c hc
  · rw [hclients, hconnections]
    intro k a ha hl
    obtain ⟨c, hc, hdone, hst⟩ := h.standing k a ha hl
    rw [← owed_congr hstored] at hst
    exact ⟨c, hc, hdone, hst.frame fun hp => hreads ⟨a, List.mem_of_getElem? ha, hl, hp⟩⟩
  · rw [hconnections]
    exact h.alone

/-- A step that changes one connection, and the queue if no other one reads
it. -/
theorem steady_connection {k : Nat} {a b : Connection} (h : Steady s)
    (ha : s.connections[k]? = some a) (hstored : t.stored = s.stored)
    (hclients : t.clients = s.clients) (hconnections : t.connections = s.connections.set k b)
    (hclient : b.client = a.client) (hlisten : b.listening = true → a.listening = true)
    (hb : b.listening = true → ∀ c, s.clients[a.client]? = some c →
      Standing (owed s c) (ahead s) (EndComes s) c.received a →
      Standing (owed s c) (ahead t) (EndComes t) c.received b)
    (hothers : ∀ (j : Nat) (x : Connection), j ≠ k → s.connections[j]? = some x → Reads x →
      ahead t = ahead s ∧ (EndComes s → EndComes t)) : Steady t := by
  refine ⟨?_, ?_, ?_, ?_⟩
  · rw [hclients]
    intro c hc
    rw [owed_congr hstored]
    exact h.inOrder c hc
  · rw [hclients]
    intro c hc
    rw [owed_congr hstored]
    exact h.complete c hc
  · rw [hclients, hconnections]
    intro j x hx hl
    rcases get_set hx with ⟨rfl, rfl⟩ | ⟨hj, hx⟩
    · obtain ⟨c, hc, hdone, hst⟩ := h.standing j a ha (hlisten hl)
      refine ⟨c, by rw [hclient]; exact hc, hdone, ?_⟩
      rw [owed_congr hstored]
      exact hb hl c hc hst
    · obtain ⟨c, hc, hdone, hst⟩ := h.standing j x hx hl
      rw [← owed_congr hstored] at hst
      exact ⟨c, hc, hdone, hst.frame fun hp => hothers j x hj hx ⟨hl, hp⟩⟩
  · rw [hconnections]
    intro i j x y hx hy hlx hly hsame
    rcases get_set hx with ⟨rfl, rfl⟩ | ⟨-, hx'⟩
    · rcases get_set hy with ⟨rfl, rfl⟩ | ⟨-, hy'⟩
      · rfl
      · rw [hclient] at hsame
        exact h.alone _ _ a y ha hy' (hlisten hlx) hly hsame
    · rcases get_set hy with ⟨rfl, rfl⟩ | ⟨-, hy'⟩
      · rw [hclient] at hsame
        exact h.alone _ _ x a hx' ha hlx (hlisten hly) hsame
      · exact h.alone _ _ x y hx' hy' hlx hly hsame

end frame

/-! ## Every step -/

section steps

variable {s t : Streaming}

theorem ahead_record (s : Streaming) (broadcast : Bool) (e : WorkflowEvent) :
    ahead (s.record broadcast e) = ahead s ++ if broadcast then [e] else [] := by
  unfold ahead Streaming.record
  by_cases hb : broadcast = true
  · simp only [hb, if_true, List.append_assoc]
  · simp only [hb, Bool.false_eq_true, if_false, List.append_nil]

theorem ahead_afterServer (s : Streaming) (action : Action) (b : ActiveRun)
    (h : ∀ e, action = .ends 0 e → s.unput = []) : ahead (s.afterServer action b) = ahead s := by
  have hunput : s.unputAfter action = s.unput := by
    cases action with
    | ends i e =>
      unfold Streaming.unputAfter
      by_cases hi : i = 0
      · subst hi
        simp only [if_true, h e rfl]
      · simp only [hi, if_false]
    | _ => rfl
  have hqueue : (s.queueAfter action).reduceOption = s.queue.reduceOption := by
    cases action with
    | ends i e =>
      unfold Streaming.queueAfter
      simp only
      split
      · rw [List.reduceOption_append]
        simp only [List.reduceOption_singleton, Option.toList_none, List.append_nil]
      · rfl
    | _ => rfl
  unfold ahead
  simp only [Streaming.afterServer, hunput, hqueue]

theorem ahead_puts {e : WorkflowEvent} {rest : List WorkflowEvent} (hput : s.unput = e :: rest) :
    ahead { s with unput := rest, queue := s.queue ++ [some e] } = ahead s := by
  unfold ahead
  rw [hput, List.reduceOption_append, List.append_assoc]
  rfl

/-- The first task, the fork endpoint and a resumed task store an event. -/
theorem steady_record (h : Steady s) {broadcast : Bool} {e : WorkflowEvent}
    (hallowed : RecordAllowed s broadcast e) : Steady (s.record broadcast e) := by
  have howed : ∀ c, owed (s.record broadcast e) c = owed s c ++ if c.wants e then [e] else [] := by
    intro c
    unfold owed Streaming.record
    rw [List.filter_append, List.filter_singleton, Bool.cond_eq_ite]
  have hsame : ∀ c, c.wants e = false → owed (s.record broadcast e) c = owed s c := by
    intro c hw
    rw [howed, hw, if_neg Bool.false_ne_true, List.append_nil]
  have hgrows : ∀ c, owed s c <+: owed (s.record broadcast e) c := by
    intro c
    rw [howed]
    exact List.prefix_append _ _
  refine ⟨?_, ?_, ?_, h.alone⟩
  · intro c hc
    exact (h.inOrder c hc).trans (hgrows c)
  · intro c hc hd
    rw [hsame c (hallowed.done c hc hd)]
    exact h.complete c hc hd
  · intro k a ha hl
    obtain ⟨c, hc, hdone, hst⟩ := h.standing k a ha hl
    have ha' := List.mem_of_getElem? ha
    refine ⟨c, hc, hdone, hst.inOrder.trans (hgrows c), ?_, ?_, hst.wired⟩
    · intro replay hp
      obtain ⟨hwhole, hends⟩ := hst.reading replay hp
      have hwants := hallowed.reading a ha' ⟨hl, replay, hp⟩ c hc
      rw [coming_reading hp] at hwhole ⊢
      rw [howed, ahead_record, hwants, ← hwhole]
      simp only [List.append_assoc]
      exact ⟨trivial, hends⟩
    · intro hp
      have hwhole := hst.finished hp
      rw [coming_finished hp] at hwhole ⊢
      rw [hsame c (hallowed.finished a ha' hl hp c hc)]
      exact hwhole

/-- A change of a task that leaves alone how tasks ended. -/
theorem live_onTask {a : ActiveRun} {i : Nat} {f : Task → Task} (hf : ∀ u, (f u).ended = u.ended)
    (h : ∃ u ∈ a.tasks, u.ended = none) : ∃ u ∈ (a.onTask i f).tasks, u.ended = none := by
  obtain ⟨u, hu, hlive⟩ := h
  obtain ⟨j, hj⟩ := List.mem_iff_getElem?.mp hu
  have hget : (a.onTask i f).tasks[j]? = some (if i = j then f u else u) := by
    simp only [ActiveRun.onTask, List.getElem?_modify, hj]
    rfl
  refine ⟨_, List.mem_of_getElem? hget, ?_⟩
  split
  · rw [hf, hlive]
  · exact hlive

theorem tasks_taskEnded (a : ActiveRun) (i : Nat) (e : TaskEnd) :
    (a.taskEnded i e).tasks = a.tasks.modify i (.finish e) := by
  cases e <;> rfl

/-- The end marker still comes after a step of the run, if it is not the end of
a task. -/
theorem endComes_server {action : Action} {b : ActiveRun} (hstep : RunStep s.run action b)
    (hends : ∀ i e, action ≠ .ends i e) (h : EndComes s) : EndComes (s.afterServer action b) := by
  cases action with
  | start graphName => exact hstep.elim
  | resume =>
    obtain ⟨-, rfl⟩ := hstep
    exact Or.inr ⟨Task.new, List.mem_append_right _ (List.mem_singleton_self _), rfl⟩
  | cancel =>
    obtain ⟨-, rfl⟩ := hstep
    exact h.imp_right (live_onTask Task.ended_cancel)
  | cancelReturns j timedOut =>
    obtain ⟨i, u, -, -, -, rfl⟩ := hstep
    have htasks : (s.run.cancelReturned j u).tasks = s.run.tasks := by
      unfold ActiveRun.cancelReturned
      simp only
      split <;> rfl
    unfold EndComes at h ⊢
    simp only [Streaming.afterServer, htasks]
    exact h
  | enters i =>
    obtain ⟨u, -, -, -, -, rfl⟩ := hstep
    exact h.imp_right (live_onTask fun _ => rfl)
  | ends i e => exact absurd rfl (hends i e)

theorem steady_server (h : Steady s) {action : Action} {b : ActiveRun}
    (hallowed : ∀ i e, action = .ends i e → EndAllowed s i) (hstep : RunStep s.run action b) :
    Steady (s.afterServer action b) := by
  apply steady_frame (t := s.afterServer action b) h rfl rfl rfl
  intro hreads
  by_cases hends : ∃ i e, action = .ends i e
  · obtain ⟨i, e, rfl⟩ := hends
    obtain ⟨hput, hmarker⟩ := hallowed i e rfl hreads
    obtain ⟨u, hu, -, -, rfl⟩ := hstep
    refine ⟨?_, fun _ => ?_⟩
    · apply ahead_afterServer
      intro e' he
      cases he
      exact hput rfl
    · rcases hmarker with hentered | hq | ⟨j, v, hj, hv, hlive⟩
      · refine Or.inl ?_
        simp only [Streaming.afterServer, Streaming.queueAfter, hentered, if_true]
        exact List.mem_append_right _ (List.mem_singleton_self _)
      · refine Or.inl ?_
        simp only [Streaming.afterServer, Streaming.queueAfter]
        split
        · exact List.mem_append_left _ hq
        · exact hq
      · refine Or.inr ⟨v, ?_, hlive⟩
        simp only [Streaming.afterServer, tasks_taskEnded]
        apply List.mem_of_getElem? (i := j)
        rw [List.getElem?_modify, hv]
        exact congrArg some (if_neg (Ne.symm hj))
  · have hno : ∀ i e, action ≠ .ends i e := fun i e he => hends ⟨i, e, he⟩
    exact ⟨ahead_afterServer s action b fun e he => absurd he (hno 0 e), endComes_server hstep hno⟩

theorem steady_puts (h : Steady s) {e : WorkflowEvent} {rest : List WorkflowEvent}
    (hput : s.unput = e :: rest) :
    Steady { s with unput := rest, queue := s.queue ++ [some e] } := by
  apply steady_frame (t := { s with unput := rest, queue := s.queue ++ [some e] }) h rfl rfl rfl
  intro _
  exact ⟨ahead_puts hput, fun hends => hends.imp_left fun hm => List.mem_append_left _ hm⟩

theorem steady_connects (h : Steady s) {client : Nat} {c : Client} {header : Option Int}
    {clients : List Client} (hc : clients[client]? = some c) (hdone : c.done = false)
    (hreceived : c.received <+: owed s c)
    (hclients : ∀ (i : Nat) (x : Client), s.clients[i]? = some x → clients[i]? = some x)
    (hmem : ∀ x ∈ clients, x ∈ s.clients ∨ x = c)
    (hfree : ∀ a ∈ s.connections, a.listening = true → a.client ≠ client) :
    Steady { s with
      clients
      connections := s.connections ++ [.new client header] } := by
  refine ⟨?_, ?_, ?_, ?_⟩
  · intro x hx
    rcases hmem x hx with hx | rfl
    · exact h.inOrder x hx
    · exact hreceived
  · intro x hx hd
    rcases hmem x hx with hx | rfl
    · exact h.complete x hx hd
    · rw [hdone] at hd
      cases hd
  · intro k a ha hl
    rcases get_concat ha with ha | ⟨-, rfl⟩
    · obtain ⟨x, hx, hxdone, hst⟩ := h.standing k a ha hl
      exact ⟨x, hclients _ x hx, hxdone, hst⟩
    · exact ⟨c, hc, hdone, standing_new client header hreceived⟩
  · intro j k a b ha hb hla hlb hsame
    rcases get_concat ha with ha | ⟨hj, rfl⟩
    · rcases get_concat hb with hb | ⟨hk, rfl⟩
      · exact h.alone j k a b ha hb hla hlb hsame
      · exact absurd hsame (hfree a (List.mem_of_getElem? ha) hla)
    · rcases get_concat hb with hb | ⟨hk, rfl⟩
      · exact absurd hsame.symm (hfree b (List.mem_of_getElem? hb) hlb)
      · rw [hj, hk]

/-- A step of a generator takes the end marker only when it finishes. -/
theorem endComes_next {k : Nat} {a b : Connection} {queue : Queue}
    (hnext : a.next s.stored s.run.status s.queue = some (b, queue)) (hb : b.phase ≠ .finished)
    (h : EndComes s) : EndComes { s.setConnection k b with queue } := by
  refine h.imp_left fun hm => ?_
  rcases next_cases hnext with ⟨header, -, rfl, -⟩ | ⟨n, -, rfl, -⟩ | ⟨e, replay, -, rfl, -⟩ |
    ⟨e, -, hq, -⟩ | ⟨-, -, rfl⟩
  · exact hm
  · exact hm
  · exact hm
  · rw [hq] at hm
    exact (List.mem_cons.mp hm).resolve_left (by simp)
  · exact absurd rfl hb

/-- The connection whose generator takes a step. -/
theorem standing_next {k : Nat} {a b : Connection} {c : Client} {queue : Queue}
    (hst : Standing (owed s c) (ahead s) (EndComes s) c.received a) (hl : a.listening = true)
    (hc : s.clients[a.client]? = some c) (hok : ServeAllowed s k a)
    (hnext : a.next s.stored s.run.status s.queue = some (b, queue)) :
    Standing (owed s c) (queue.reduceOption ++ s.unput)
      (EndComes { s.setConnection k b with queue }) c.received b := by
  have hwired := wired_next hst.wired hnext
  unfold ServeAllowed at hok
  by_cases hfetch : ∃ n, a.phase = .fetching n
  · obtain ⟨n, hp⟩ := hfetch
    rw [hp] at hok
    obtain ⟨hwhole, hcomes⟩ := hok hl
    have hnext' := hnext
    unfold Connection.next at hnext'
    rw [hp] at hnext'
    cases hnext'
    refine standing_whole ?_ (fun hb => endComes_next hnext hb hcomes) hwired
    rw [coming_reading rfl]
    simp only [← List.append_assoc]
    rw [List.append_assoc _ s.queue.reduceOption]
    exact hwhole c hc
  by_cases hopen : ∀ header, a.phase = .opening header → opened header = .reading []
  · have hwhole : c.received ++ coming a (ahead s) = owed s c ∧ EndComes s := by
      cases hp : a.phase with
      | opening header =>
        rw [hp] at hok
        obtain ⟨hwhole, hcomes⟩ := hok hl (hopen header hp)
        have hc' := hwhole c hc
        rw [List.append_nil] at hc'
        rw [coming_opening hp, ← List.append_assoc]
        exact ⟨hc', hcomes⟩
      | fetching n => exact absurd ⟨n, hp⟩ hfetch
      | reading replay => exact hst.reading replay hp
      | finished =>
        unfold Connection.next at hnext
        rw [hp] at hnext
        cases hnext
    have hlast : a.phase = .reading [] → s.queue.head? = some none →
        s.queue.reduceOption ++ s.unput = [] := by
      intro hp hq
      rw [hp] at hok
      exact hok.2 hl hq
    have hbrings := coming_next hnext hopen (fun n hn => hfetch ⟨n, hn⟩) hlast
    refine standing_whole ?_ (fun hb => endComes_next hnext hb hwhole.2) hwired
    exact (congrArg (c.received ++ ·) hbrings).trans hwhole.1
  · -- The generator still has to ask the store.
    obtain ⟨header, hheader⟩ := not_forall.mp hopen
    obtain ⟨hp, hne⟩ := Classical.not_imp.mp hheader
    obtain ⟨n, hn⟩ := (opened_cases header).resolve_left hne
    unfold Connection.next at hnext
    rw [hp] at hnext
    cases hnext
    refine ⟨?_, ?_, ?_, hwired⟩
    · have hgot : eventsOf (a.wire ++ [.config]) = eventsOf a.wire := by
        rw [eventsOf_concat]
        exact List.append_nil _
      rw [hgot]
      exact hst.inOrder
    · intro replay hr
      rw [hn] at hr
      cases hr
    · intro hf
      rw [hn] at hf
      cases hf

theorem steady_serve (h : Steady s) {k : Nat}
    (hallowed : ∀ a, s.connections[k]? = some a → ServeAllowed s k a)
    (hserve : s.serve k = some t) : Steady t := by
  obtain ⟨a, b, queue, ha, hnext, rfl⟩ := serve_spec hserve
  have hok := hallowed a ha
  obtain ⟨hclient, hlisten⟩ := next_keeps hnext
  refine steady_connection h ha rfl rfl rfl hclient (fun hl => hlisten ▸ hl) ?_ ?_
  · intro hl c hc hst
    exact standing_next hst (hlisten ▸ hl) hc hok hnext
  · intro j x hj hx hr
    unfold ServeAllowed at hok
    rcases next_cases hnext with ⟨header, -, rfl, -⟩ | ⟨n, -, rfl, -⟩ | ⟨e, replay, -, rfl, -⟩ |
      ⟨e, hp, -, -⟩ | ⟨hp, -, -⟩
    · exact ⟨rfl, id⟩
    · exact ⟨rfl, id⟩
    · exact ⟨rfl, id⟩
    · rw [hp] at hok
      exact absurd (hok.1 j x hx hr) hj
    · rw [hp] at hok
      exact absurd (hok.1 j x hx hr) hj

theorem steady_receive (h : Steady s) {k : Nat} (hreceive : s.receive k = some t) : Steady t := by
  obtain ⟨a, c, r, wire, ha, hc, hw, hl, rfl⟩ := receive_spec hreceive
  obtain ⟨c', hc', hdone, hst⟩ := h.standing k a ha hl
  obtain rfl : c = c' := Option.some.inj (hc.symm.trans hc')
  have hother : ∀ (j : Nat) (x : Connection), j ≠ k → s.connections[j]? = some x →
      x.listening = true → x.client ≠ a.client :=
    fun j x hj hx hlx hsame => hj (h.alone j k x a hx ha hlx hl hsame)
  have hfresh : ∀ x ∈ s.clients.set a.client (c.dispatchRecord r),
      x ∈ s.clients ∨ x = c.dispatchRecord r := fun x hx => List.mem_or_eq_of_mem_set hx
  have hset : (s.clients.set a.client (c.dispatchRecord r))[a.client]? =
      some (c.dispatchRecord r) := by
    rw [List.getElem?_set_self (lt_of_get hc)]
  have hsofar : (c.dispatchRecord r).received <+: owed s c := by
    have hin := hst.inOrder
    rw [hw, eventsOf_cons, ← List.append_assoc] at hin
    exact (List.prefix_append _ _).trans hin
  have hend : ∀ status, r = .done status → (c.dispatchRecord r).received = owed s c := by
    rintro status rfl
    rw [← whole_at_end hst hw]
    exact List.append_nil _
  have hopen : (∀ status, r ≠ .done status) → (c.dispatchRecord r).done = false := by
    intro hr
    cases r with
    | done status => exact absurd rfl (hr status)
    | _ => exact hdone
  refine ⟨?_, ?_, ?_, ?_⟩
  · intro x hx
    rcases hfresh x hx with hx | rfl
    · exact h.inOrder x hx
    · exact hsofar
  · intro x hx hd
    rcases hfresh x hx with hx | rfl
    · exact h.complete x hx hd
    · by_cases hr : ∃ status, r = .done status
      · obtain ⟨status, hr⟩ := hr
        exact hend status hr
      · rw [hopen fun status he => hr ⟨status, he⟩] at hd
        cases hd
  · intro j x hx hlx
    rcases get_set hx with ⟨rfl, rfl⟩ | ⟨hj, hx⟩
    · have hnot : (c.dispatchRecord r).done = false := by simpa using hlx
      refine ⟨_, hset, hnot, standing_arrives hst hw rfl ?_⟩
      rintro status rfl
      cases hnot
    · obtain ⟨y, hy, hydone, hyst⟩ := h.standing j x hx hlx
      refine ⟨y, ?_, hydone, hyst⟩
      rw [List.getElem?_set_ne (hother j x hj hx hlx).symm]
      exact hy
  · intro i j x y hx hy hlx hly hsame
    have hold : ∀ (l : Nat) (z : Connection),
        (s.connections.set k { a with wire, listening := !(c.dispatchRecord r).done })[l]? =
          some z → z.listening = true → ∃ w, s.connections[l]? = some w ∧ w.listening = true ∧
          w.client = z.client := by
      intro l z hz hlz
      rcases get_set hz with ⟨rfl, rfl⟩ | ⟨-, hz⟩
      · exact ⟨a, ha, hl, rfl⟩
      · exact ⟨z, hz, hlz, rfl⟩
    obtain ⟨x', hx', hlx', hcx⟩ := hold i x hx hlx
    obtain ⟨y', hy', hly', hcy⟩ := hold j y hy hly
    exact h.alone i j x' y' hx' hy' hlx' hly' (by rw [hcx, hcy, hsame])

theorem steady_step {runId : String} {action : StreamAction} (h : Steady s)
    (hallowed : Allowed runId s action) (hstep : StreamStep runId s action t) : Steady t := by
  cases action with
  | server action =>
    obtain ⟨b, hrun, rfl, -⟩ := hstep
    apply steady_server h _ hrun
    rintro i e rfl
    exact hallowed
  | emits i e =>
    obtain ⟨u, -, -, -, -, rfl⟩ := hstep
    exact steady_record h hallowed
  | forks sequenceNumber newRunId =>
    obtain rfl := hstep
    exact steady_record h hallowed
  | puts =>
    obtain ⟨e, rest, hput, rfl⟩ := hstep
    exact steady_puts h hput
  | connects lastEventId =>
    obtain rfl := hstep
    refine steady_connects h List.getElem?_concat_length rfl (List.nil_prefix) ?_ ?_ ?_
    · intro i x hx
      rw [List.getElem?_append_left (lt_of_get hx), hx]
    · intro x hx
      exact (List.mem_append.mp hx).imp_right List.mem_singleton.mp
    · intro a ha hl hclient
      obtain ⟨k, hk⟩ := List.mem_iff_getElem?.mp ha
      obtain ⟨c, hc, -⟩ := h.standing k a hk hl
      have hlt := lt_of_get hc
      omega
  | reconnects i =>
    obtain ⟨c, hc, hdone, hfree, rfl⟩ := hstep
    refine steady_connects h hc hdone (h.inOrder c (List.mem_of_getElem? hc)) (fun _ _ hx => hx)
      (fun _ hx => Or.inl hx) ?_
    intro a ha hl hclient
    rw [hfree a ha hclient] at hl
    cases hl
  | breaks k =>
    obtain ⟨a, ha, -, rfl⟩ := hstep
    refine steady_connection h ha rfl rfl rfl rfl ?_ ?_ fun _ _ _ _ _ => ⟨rfl, id⟩
    · rintro ⟨⟩
    · rintro ⟨⟩
  | notices k =>
    obtain ⟨a, ha, hl, rfl⟩ := hstep
    have hnot : ¬ a.listening = true := by simp [hl]
    exact steady_connection h ha rfl rfl rfl rfl (fun hb => hb) (fun hb => absurd hb hnot)
      fun _ _ _ _ _ => ⟨rfl, id⟩
  | serves k => exact steady_serve h hallowed hstep
  | pings k =>
    obtain ⟨a, ha, hp, -, rfl⟩ := hstep
    refine steady_connection h ha rfl rfl rfl rfl (fun hb => hb) ?_ fun _ _ _ _ _ => ⟨rfl, id⟩
    intro _ c _ hst
    obtain ⟨hwhole, hends⟩ := hst.reading _ hp
    have hb : ({ a with wire := a.wire ++ [.ping] } : Connection).phase = .reading [] := hp
    apply standing_whole _ (fun _ => hends)
      (wired_send hst.wired (by simp [hp]) (by simp [hp]) rfl (by simp))
    rw [coming_reading hp] at hwhole
    rw [coming_reading hb, eventsOf_concat, show Record.ping.event?.toList = [] from rfl,
      List.append_nil]
    exact hwhole
  | receives k => exact steady_receive h hstep

end steps

/-! ## The law -/

theorem stepsLeft_set {s t : Streaming} {k : Nat} {a b : Connection}
    (ha : s.connections[k]? = some a) (ht : t.connections = s.connections.set k b)
    (h : left t b < left s a) : stepsLeft t k < stepsLeft s k := by
  unfold stepsLeft
  rw [ht, List.getElem?_set_self (lt_of_get ha), ha]
  exact h

theorem left_next {s t : Streaming} {a b : Connection} {queue : Queue}
    (h : a.next s.stored s.run.status s.queue = some (b, queue)) (hstored : t.stored = s.stored)
    (hqueue : t.queue = queue) : left t b < left s a := by
  unfold left
  rw [hstored, hqueue]
  rcases next_cases h with ⟨header, hp, rfl, rfl⟩ | ⟨n, hp, rfl, rfl⟩ |
    ⟨e, replay, hp, rfl, rfl⟩ | ⟨e, hp, hq, rfl⟩ | ⟨hp, hq, rfl⟩
  · simp only [hp, List.length_append, List.length_singleton, opened]
    rcases header with _ | n
    · simp only [List.length_nil]
      omega
    · by_cases hn : 0 ≤ n
      · simp only [hn, if_true]
        omega
      · simp only [hn, if_false, List.length_nil]
        omega
  · have hlen : (getEvents s.stored n).length ≤ s.stored.length := by
      unfold getEvents
      rw [List.length_insertionSort]
      exact List.length_filter_le _ _
    simp only [hp]
    omega
  · simp only [hp, List.length_append, List.length_cons, List.length_nil]
    omega
  · simp only [hp, hq, List.length_append, List.length_cons, List.length_nil]
    omega
  · simp only [hp, hq, List.length_append, List.length_cons, List.length_nil]
    omega

theorem delivers_of_steady {s : Streaming} (h : Steady s) : Delivers s := by
  refine ⟨h.inOrder, h.complete, ?_⟩
  intro hover k a ha hl
  obtain ⟨c, hc, -, hst⟩ := h.standing k a ha hl
  have hserve : ∀ b queue, a.next s.stored s.run.status s.queue = some (b, queue) →
      ∃ t, (s.serve k = some t ∨ s.receive k = some t) ∧ stepsLeft t k < stepsLeft s k := by
    intro b queue hb
    exact ⟨_, Or.inl (serve_of_next ha hb), stepsLeft_set ha rfl (left_next hb rfl rfl)⟩
  cases hp : a.phase with
  | opening header => exact hserve _ _ (by unfold Connection.next; rw [hp])
  | fetching n => exact hserve _ _ (by unfold Connection.next; rw [hp])
  | reading replay =>
    cases replay with
    | cons e replay => exact hserve _ _ (by unfold Connection.next; rw [hp])
    | nil =>
      -- The run is over, so its end marker is in the queue.
      obtain ⟨-, hends⟩ := hst.reading _ hp
      rcases hends with hq | ⟨u, hu, hlive⟩
      · cases hqueue : s.queue with
        | nil =>
          rw [hqueue] at hq
          cases hq
        | cons head queue =>
          rw [hqueue] at hserve
          cases head with
          | none => exact hserve _ _ (by unfold Connection.next; rw [hp])
          | some e => exact hserve _ _ (by unfold Connection.next; rw [hp])
      · exact absurd hlive (hover u hu)
  | finished =>
    obtain ⟨wire, status, hlast, -⟩ := hst.wired.ended hp
    cases hw : a.wire with
    | nil =>
      rw [hw] at hlast
      exact absurd hlast.symm (by simp)
    | cons r rest =>
      refine ⟨_, Or.inr (receive_of_wire ha hc hw hl), stepsLeft_set ha rfl ?_⟩
      simp only [left, hw, hp, List.length_cons]
      omega

/-- In every run whose steps are all allowed, every client gets each of its
events once and in order, and then the end marker. -/
theorem allowed_streams_deliver (G : CompiledGraph) (runId : String) (s : Streaming)
    (h : Reachable ((streamMachine G runId).restrict (Allowed runId)) s) : Delivers s := by
  apply delivers_of_steady
  refine h.invariant (I := Steady) ?_ ?_
  · rintro s rfl
    exact steady_started G
  · rintro s action t hs ⟨hstep, hallowed⟩
    exact steady_step hs hallowed hstep

/-! ## One client that stays -/

/-- The events of a run of one step, and its first two. -/
def flowEvents : List WorkflowEvent :=
  (RunRecord.empty.publish "r" .new (run oneStep inOrder (plainInput .empty))).events

def flowStarted : WorkflowEvent := ⟨"r", 0, .executionStarted "flow" .empty "work"⟩

def workStarted : WorkflowEvent := ⟨"r", 1, .nodeStarted "work" "FunctionNode"⟩

/-- The run while its first task is live. -/
def liveRun : ActiveRun := (ActiveRun.started oneStep).onTask 0 .enter

theorem live_entered : StreamStep "r" (.started oneStep) (.server (.enters 0))
    { Streaming.started oneStep with run := liveRun } := by
  refine ⟨liveRun, ⟨Task.new, rfl, rfl, rfl, rfl, rfl⟩, rfl, ?_⟩
  rintro outcome ⟨⟩

/-- A run that was cancelled after its first event, with the only client that it
ever had. -/
def servedRun : Streaming where
  run := liveRun.cancelling.taskEnded 0 .cancelled
  stored := [flowStarted]
  unput := []
  queue := []
  clients := [⟨none, 0, [flowStarted], true⟩]
  connections := [⟨0, false, .finished, []⟩]

/-- With one connection, no other one reads the queue. -/
theorem only_reader {s : Streaming} {a : Connection} (h : s.connections = [a]) (j : Nat)
    (b : Connection) (hb : s.connections[j]? = some b) (_ : Reads b) : j = 0 := by
  have hj := lt_of_get hb
  rw [h, List.length_singleton] at hj
  omega

theorem stream_step {G : CompiledGraph} {runId : String} {s t : Streaming}
    {P : Streaming → StreamAction → Prop} (action : StreamAction)
    (h : Reachable ((streamMachine G runId).restrict P) s) (hstep : StreamStep runId s action t)
    (hP : P s action) : Reachable ((streamMachine G runId).restrict P) t :=
  h.step ⟨hstep, hP⟩

theorem a_client_that_stays_is_served : Delivers servedRun := by
  apply allowed_streams_deliver oneStep "r"
  have hinit : Reachable ((streamMachine oneStep "r").restrict (Allowed "r")) (.started oneStep) :=
    reachable_init rfl
  have hlive := stream_step (.server (.enters 0)) hinit live_entered trivial
  have h0 := stream_step (.connects none) hlive rfl trivial
  have h1 := stream_step (.serves 0) h0 rfl (by
    rintro a ⟨⟩ - -
    refine ⟨?_, Or.inr ⟨_, List.mem_singleton_self _, rfl⟩⟩
    rintro c ⟨⟩
    rfl)
  have h2 := stream_step (.emits 0 flowStarted) h1 ⟨_, rfl, rfl, rfl, rfl, rfl⟩ (by
    refine ⟨?_, ?_, ?_⟩
    · intro a ha _ c hc
      obtain rfl := List.mem_singleton.mp ha
      cases hc
      rfl
    · intro a ha _ hp
      obtain rfl := List.mem_singleton.mp ha
      cases hp
    · intro c hc hd
      obtain rfl := List.mem_singleton.mp hc
      cases hd)
  have h3 := stream_step .puts h2 ⟨_, _, rfl, rfl⟩ trivial
  have h4 := stream_step (.serves 0) h3 rfl (by
    rintro a ⟨⟩
    exact ⟨only_reader rfl, by rintro - ⟨⟩⟩)
  have hcancel : RunStep liveRun .cancel liveRun.cancelling := ⟨rfl, rfl⟩
  have h5 := stream_step (.server .cancel) h4 ⟨_, hcancel, rfl, by rintro outcome ⟨⟩⟩ trivial
  have hend : RunStep liveRun.cancelling (.ends 0 .cancelled)
      (liveRun.cancelling.taskEnded 0 .cancelled) := ⟨_, rfl, rfl, rfl, rfl⟩
  have h6 := stream_step (.server (.ends 0 .cancelled)) h5 ⟨_, hend, rfl, by rintro outcome ⟨⟩⟩
    fun _ => ⟨fun _ => rfl, Or.inl rfl⟩
  have h7 := stream_step (.serves 0) h6 rfl (by
    rintro a ⟨⟩
    exact ⟨only_reader rfl, fun _ _ => rfl⟩)
  have h8 := stream_step (.receives 0) h7 rfl trivial
  have h9 := stream_step (.receives 0) h8 rfl trivial
  exact stream_step (.receives 0) h9 rfl trivial

/-! ## Two clients -/

/-- The run after two clients came and each took one of its first two events. -/
def sharedQueue : Streaming where
  run := liveRun
  stored := [flowStarted, workStarted]
  unput := []
  queue := []
  clients := [⟨none, 0, [], false⟩, ⟨none, 1, [workStarted], false⟩]
  connections := [⟨0, true, .reading [], [.config, .event flowStarted]⟩, ⟨1, true, .reading [], []⟩]

/-- Two clients that stream a run at once get each event only once between
them. -/
theorem two_clients_share_the_events :
    Reachable (streamMachine oneStep "r") sharedQueue ∧ sharedQueue.stored <+: flowEvents ∧
      ¬ Delivers sharedQueue := by
  refine ⟨?_, ⟨flowEvents.drop 2, rfl⟩, ?_⟩
  · have hinit : Reachable ((streamMachine oneStep "r").restrict everyStep) (.started oneStep) :=
      reachable_init rfl
    have h0 := stream_step (.server (.enters 0)) hinit live_entered trivial
    have h1 := stream_step (.connects none) h0 rfl trivial
    have h2 := stream_step (.connects none) h1 rfl trivial
    have h3 := stream_step (.serves 0) h2 rfl trivial
    have h4 := stream_step (.serves 1) h3 rfl trivial
    -- The first client takes the first event.
    have h5 := stream_step (.emits 0 flowStarted) h4 ⟨_, rfl, rfl, rfl, rfl, rfl⟩ trivial
    have h6 := stream_step .puts h5 ⟨_, _, rfl, rfl⟩ trivial
    have h7 := stream_step (.serves 0) h6 rfl trivial
    -- The second client takes the second event.
    have h8 := stream_step (.emits 0 workStarted) h7 ⟨_, rfl, rfl, rfl, rfl, rfl⟩ trivial
    have h9 := stream_step .puts h8 ⟨_, _, rfl, rfl⟩ trivial
    have h10 := stream_step (.serves 1) h9 rfl trivial
    have h11 := stream_step (.receives 1) h10 rfl trivial
    exact (stream_step (.receives 1) h11 rfl trivial).of_restrict
  · intro h
    have hprefix := h.inOrder ⟨none, 1, [workStarted], false⟩ (by simp [sharedQueue])
    rw [show owed sharedQueue ⟨none, 1, [workStarted], false⟩ = [flowStarted, workStarted] from rfl]
      at hprefix
    obtain ⟨rest, hrest⟩ := hprefix
    have hne : workStarted ≠ flowStarted := by decide
    exact hne (List.cons.inj hrest).1

end orchestra.delivery
