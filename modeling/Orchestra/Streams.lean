-- The stream of a run (`streams.py`) and its clients (`useSSE.ts`): the queue
-- that the first task of the run fills, the generators that replay the store
-- and then take from the queue, and the records on their way to the clients, in
-- any order of their steps.
import Orchestra.Server
import Mathlib.Data.List.Sort

open dicts machine orchestra.events orchestra.compiled orchestra.runs orchestra.server

namespace orchestra.streams

/-! ## Records -/

/-- A record of the stream. Only its kind, its event and its status matter. -/
inductive Record
  | config
  | event (e : WorkflowEvent)
  | ping
  | done (status : RunStatus)

/-- The id of a record, if that is not empty. The id of `config` is `"0"`. -/
def Record.id : Record → Option Int
  | .config => some 0
  | .event e => some e.sequence
  | .ping => none
  | .done _ => none

def Record.event? : Record → Option WorkflowEvent
  | .event e => some e
  | _ => none

def eventsOf (wire : List Record) : List WorkflowEvent := wire.filterMap Record.event?

theorem eventsOf_cons (r : Record) (wire : List Record) :
    eventsOf (r :: wire) = r.event?.toList ++ eventsOf wire := by
  unfold eventsOf
  rw [List.filterMap_cons]
  rcases r.event? with _ | e <;> rfl

theorem eventsOf_concat (wire : List Record) (r : Record) :
    eventsOf (wire ++ [r]) = eventsOf wire ++ r.event?.toList := by
  unfold eventsOf
  rw [List.filterMap_append]
  rcases h : r.event? with _ | e <;> simp [h]

/-! ## Clients -/

/-- A client, with the `Last-Event-ID` of its first request, if it sent one, and
what it has received. The id `"0"` is that of a client without an id. -/
structure Client where
  start : Option Int
  lastId : Int
  received : List WorkflowEvent
  done : Bool

namespace Client

def new (start : Option Int) : Client := ⟨start, start.getD 0, [], false⟩

/-- `dispatchRecord`. A client that got the end marker closes. -/
def dispatchRecord (c : Client) (r : Record) : Client :=
  { c with
    lastId := r.id.getD c.lastId
    received := c.received ++ r.event?.toList
    done := match r with
      | .done _ => true
      | _ => c.done }

/-- The `Last-Event-ID` of a reconnect. The sequence number that the client also
puts into the URL is read by nobody. -/
def header (c : Client) : Option Int := if c.lastId = 0 then none else some c.lastId

/-- The events after the starting point of the client. -/
def wants (c : Client) (e : WorkflowEvent) : Bool :=
  match c.start with
  | none => true
  | some n => n < e.sequence

end Client

/-! ## Generators -/

/-- Where a generator is: before its first record, before it asks the store, or
past that, with the rest of its replay. -/
inductive Phase
  | opening (lastEventId : Option Int)
  | fetching (afterSequence : Int)
  | reading (replay : List WorkflowEvent)
  | finished

/-- A connection, of the client with the given number. It goes on at the server
when its client no longer listens. The wire holds what was sent and has not
arrived. -/
structure Connection where
  client : Nat
  listening : Bool
  phase : Phase
  wire : List Record

def Connection.new (client : Nat) (lastEventId : Option Int) : Connection :=
  ⟨client, true, .opening lastEventId, []⟩

/-- `SQLiteEventStore.get_events`, which the server uses: in the order of the
sequence numbers. Equal numbers stay in the order of their rows. -/
def getEvents (stored : List WorkflowEvent) (afterSequence : Int) : List WorkflowEvent :=
  (stored.filter (fun e => afterSequence < e.sequence)).insertionSort
    (fun a b => a.sequence ≤ b.sequence)

/-- The phase after the first record. -/
def opened : Option Int → Phase
  | none => .reading []
  | some n => if 0 ≤ n then .fetching n else .reading []

theorem opened_cases (header : Option Int) :
    opened header = .reading [] ∨ ∃ n, opened header = .fetching n := by
  unfold opened
  split
  · exact Or.inl rfl
  · rename_i n
    by_cases hn : 0 ≤ n
    · exact Or.inr ⟨n, if_pos hn⟩
    · exact Or.inl (if_neg hn)

/-- The queue of a run. `none` is the end marker. -/
abbrev Queue := List (Option WorkflowEvent)

/-- The next step of a generator. It waits while the queue is empty. -/
def Connection.next (a : Connection) (stored : List WorkflowEvent) (status : RunStatus)
    (queue : Queue) : Option (Connection × Queue) :=
  match a.phase with
  | .opening lastEventId =>
    some ({ a with phase := opened lastEventId, wire := a.wire ++ [.config] }, queue)
  | .fetching n => some ({ a with phase := .reading (getEvents stored n) }, queue)
  | .reading (e :: replay) =>
    some ({ a with phase := .reading replay, wire := a.wire ++ [.event e] }, queue)
  | .reading [] =>
    match queue with
    | [] => none
    | some e :: queue => some ({ a with wire := a.wire ++ [.event e] }, queue)
    | none :: queue =>
      some ({ a with phase := .finished, wire := a.wire ++ [.done status] }, queue)
  | .finished => none

/-! ## The machine -/

/-- A run with its stored events, those of them that are not yet in the queue,
the queue, and all clients and connections that there ever were. -/
structure Streaming where
  run : ActiveRun
  stored : List WorkflowEvent
  unput : List WorkflowEvent
  queue : Queue
  clients : List Client
  connections : List Connection

namespace Streaming

def started (G : CompiledGraph) : Streaming := ⟨.started G, [], [], [], [], []⟩

/-- Store an event. `_BroadcastStore`, which only the first task has, puts it
into the queue after that. -/
def record (s : Streaming) (broadcast : Bool) (e : WorkflowEvent) : Streaming :=
  { s with
    stored := s.stored ++ [e]
    unput := if broadcast then s.unput ++ [e] else s.unput }

/-- The queue after a step of the run: a task that entered the engine ends with
an end marker. -/
def queueAfter (s : Streaming) : Action → Queue
  | .ends i _ => if (s.run.tasks[i]?).any (·.entered) then s.queue ++ [none] else s.queue
  | _ => s.queue

/-- The events that are not yet in the queue after a step of the run. One that
the end of the first task finds on the way never gets there. -/
def unputAfter (s : Streaming) : Action → List WorkflowEvent
  | .ends i _ => if i = 0 then [] else s.unput
  | _ => s.unput

/-- The streaming state after a step of the run to `b`. -/
def afterServer (s : Streaming) (action : Action) (b : ActiveRun) : Streaming :=
  { s with
    run := b
    queue := s.queueAfter action
    unput := s.unputAfter action }

def setConnection (s : Streaming) (k : Nat) (a : Connection) : Streaming :=
  { s with connections := s.connections.set k a }

/-- The generator of the connection `k` takes a step. -/
def serve (s : Streaming) (k : Nat) : Option Streaming := do
  let a ← s.connections[k]?
  let (b, queue) ← a.next s.stored s.run.status s.queue
  pure { s.setConnection k b with queue }

/-- The first record on the wire of the connection `k` arrives. -/
def receive (s : Streaming) (k : Nat) : Option Streaming := do
  let a ← s.connections[k]?
  let c ← s.clients[a.client]?
  match a.wire with
  | [] => none
  | r :: wire =>
    if a.listening then
      let c := c.dispatchRecord r
      pure { s.setConnection k { a with wire, listening := !c.done } with
        clients := s.clients.set a.client c }
    else none

end Streaming

/-- A step of the run, of the task that stores events, of a fork of the run, of
the clients, of their connections, or of the generators. -/
inductive StreamAction
  | server (action : Action)
  | emits (i : Nat) (e : WorkflowEvent)
  | forks (sequenceNumber : Int) (newRunId : String)
  | puts
  | connects (lastEventId : Option Int)
  | reconnects (c : Nat)
  | breaks (k : Nat)
  | notices (k : Nat)
  | serves (k : Nat)
  | pings (k : Nat)
  | receives (k : Nat)

/-- The steps. A live task may store any event of the run. The first one
returns only when all that it stored is in the queue, as it waits for that. -/
def StreamStep (runId : String) (s : Streaming) : StreamAction → Streaming → Prop
  | .server action, t => ∃ b, RunStep s.run action b ∧ t = s.afterServer action b ∧
    (∀ outcome, action = .ends 0 (.returned outcome) → s.unput = [])
  | .emits i e, t => ∃ u, s.run.tasks[i]? = some u ∧ u.entered = true ∧ u.ended = none ∧
    e.runId = runId ∧ t = s.record (i = 0) e
  | .forks sequenceNumber newRunId, t =>
    t = s.record false (forkEvent runId sequenceNumber newRunId)
  | .puts, t => ∃ e rest, s.unput = e :: rest ∧
    t = { s with unput := rest, queue := s.queue ++ [some e] }
  | .connects lastEventId, t => t = { s with
      clients := s.clients ++ [.new lastEventId]
      connections := s.connections ++ [.new s.clients.length lastEventId] }
  | .reconnects i, t => ∃ c, s.clients[i]? = some c ∧ c.done = false ∧
    (∀ a ∈ s.connections, a.client = i → a.listening = false) ∧
    t = { s with connections := s.connections ++ [.new i c.header] }
  | .breaks k, t => ∃ a, s.connections[k]? = some a ∧ a.listening = true ∧
    t = s.setConnection k { a with listening := false, wire := [] }
  | .notices k, t => ∃ a, s.connections[k]? = some a ∧ a.listening = false ∧
    t = s.setConnection k { a with phase := .finished }
  | .serves k, t => s.serve k = some t
  | .pings k, t => ∃ a, s.connections[k]? = some a ∧ a.phase = .reading [] ∧ s.queue = [] ∧
    t = s.setConnection k { a with wire := a.wire ++ [.ping] }
  | .receives k, t => s.receive k = some t

/-- A run of the graph `G` with all streams of it. -/
def streamMachine (G : CompiledGraph) (runId : String) : Machine Streaming StreamAction where
  init s := s = .started G
  step := StreamStep runId

/-! ## What the steps do -/

section steps

variable {s t : Streaming} {k : Nat}

theorem serve_spec (h : s.serve k = some t) :
    ∃ a b queue, s.connections[k]? = some a ∧
      a.next s.stored s.run.status s.queue = some (b, queue) ∧
      t = { s.setConnection k b with queue } := by
  unfold Streaming.serve at h
  obtain ⟨a, ha, h⟩ := Option.bind_eq_some_iff.mp h
  obtain ⟨⟨b, queue⟩, hb, h⟩ := Option.bind_eq_some_iff.mp h
  exact ⟨a, b, queue, ha, hb, (Option.some.inj h).symm⟩

theorem receive_spec (h : s.receive k = some t) :
    ∃ a c r wire, s.connections[k]? = some a ∧ s.clients[a.client]? = some c ∧
      a.wire = r :: wire ∧ a.listening = true ∧
      t = { s.setConnection k { a with wire, listening := !(c.dispatchRecord r).done } with
        clients := s.clients.set a.client (c.dispatchRecord r) } := by
  unfold Streaming.receive at h
  obtain ⟨a, ha, h⟩ := Option.bind_eq_some_iff.mp h
  obtain ⟨c, hc, h⟩ := Option.bind_eq_some_iff.mp h
  split at h
  · cases h
  · rename_i r wire hw
    split at h
    · rename_i hl
      exact ⟨a, c, r, wire, ha, hc, hw, hl, (Option.some.inj h).symm⟩
    · cases h

theorem serve_of_next {a b : Connection} {queue : Queue} (ha : s.connections[k]? = some a)
    (hb : a.next s.stored s.run.status s.queue = some (b, queue)) :
    s.serve k = some { s.setConnection k b with queue } := by
  unfold Streaming.serve
  simp only [ha, hb, Option.bind_eq_bind, Option.bind_some]
  rfl

theorem receive_of_wire {a : Connection} {c : Client} {r : Record} {wire : List Record}
    (ha : s.connections[k]? = some a) (hc : s.clients[a.client]? = some c)
    (hw : a.wire = r :: wire) (hl : a.listening = true) :
    s.receive k =
      some { s.setConnection k { a with wire, listening := !(c.dispatchRecord r).done } with
        clients := s.clients.set a.client (c.dispatchRecord r) } := by
  unfold Streaming.receive
  simp only [ha, hc, hw, hl, Option.bind_eq_bind, Option.bind_some, if_true]
  rfl

end steps

/-- What a step of a generator is. -/
theorem next_cases {a b : Connection} {stored : List WorkflowEvent} {status : RunStatus}
    {queue queue' : Queue} (h : a.next stored status queue = some (b, queue')) :
    (∃ header, a.phase = .opening header ∧ queue' = queue ∧
      b = { a with phase := opened header, wire := a.wire ++ [.config] }) ∨
    (∃ n, a.phase = .fetching n ∧ queue' = queue ∧
      b = { a with phase := .reading (getEvents stored n) }) ∨
    (∃ e replay, a.phase = .reading (e :: replay) ∧ queue' = queue ∧
      b = { a with phase := .reading replay, wire := a.wire ++ [.event e] }) ∨
    (∃ e, a.phase = .reading [] ∧ queue = some e :: queue' ∧
      b = { a with wire := a.wire ++ [.event e] }) ∨
    (a.phase = .reading [] ∧ queue = none :: queue' ∧
      b = { a with phase := .finished, wire := a.wire ++ [.done status] }) := by
  unfold Connection.next at h
  split at h
  · rename_i header hp
    cases h
    exact Or.inl ⟨header, hp, rfl, rfl⟩
  · rename_i n hp
    cases h
    exact Or.inr (Or.inl ⟨n, hp, rfl, rfl⟩)
  · rename_i e replay hp
    cases h
    exact Or.inr (Or.inr (Or.inl ⟨e, replay, hp, rfl, rfl⟩))
  · rename_i hp
    split at h
    · cases h
    · rename_i e rest
      cases h
      exact Or.inr (Or.inr (Or.inr (Or.inl ⟨e, hp, rfl, rfl⟩)))
    · cases h
      exact Or.inr (Or.inr (Or.inr (Or.inr ⟨hp, rfl, rfl⟩)))
  · cases h

theorem next_keeps {a b : Connection} {stored : List WorkflowEvent} {status : RunStatus}
    {queue queue' : Queue} (h : a.next stored status queue = some (b, queue')) :
    b.client = a.client ∧ b.listening = a.listening := by
  rcases next_cases h with ⟨header, -, -, rfl⟩ | ⟨n, -, -, rfl⟩ | ⟨e, replay, -, -, rfl⟩ |
    ⟨e, -, -, rfl⟩ | ⟨-, -, rfl⟩
  all_goals exact ⟨rfl, rfl⟩

section wire

variable {a b : Connection} {r : Record} {wire : List Record}

def NoEnd (wire : List Record) : Prop := ∀ status, Record.done status ∉ wire

/-- The wire of a connection whose client has not got the end marker: it has one
just if the generator is finished, as its last record. -/
structure Wired (a : Connection) : Prop where
  noEnd : a.phase ≠ .finished → NoEnd a.wire
  ended : a.phase = .finished → ∃ wire status, a.wire = wire ++ [.done status] ∧ NoEnd wire

theorem wired_new (client : Nat) (lastEventId : Option Int) : Wired (.new client lastEventId) := by
  refine ⟨?_, ?_⟩
  · intro _ status hm
    cases hm
  · intro hp
    cases hp

theorem noEnd_concat (h : NoEnd wire) (hr : ∀ status, r ≠ .done status) : NoEnd (wire ++ [r]) := by
  intro status hm
  rcases List.mem_append.mp hm with hm | hm
  · exact h status hm
  · exact hr status (List.mem_singleton.mp hm).symm

/-- A generator that is not finished sends another record than the end marker. -/
theorem wired_send (h : Wired a) (ha : a.phase ≠ .finished) (hb : b.phase ≠ .finished)
    (hw : b.wire = a.wire ++ [r]) (hr : ∀ status, r ≠ .done status) : Wired b := by
  refine ⟨?_, fun hp => absurd hp hb⟩
  intro _
  rw [hw]
  exact noEnd_concat (h.noEnd ha) hr

theorem wired_next {stored : List WorkflowEvent} {status : RunStatus} {queue queue' : Queue}
    (h : Wired a) (hnext : a.next stored status queue = some (b, queue')) : Wired b := by
  rcases next_cases hnext with ⟨header, hp, -, rfl⟩ | ⟨n, hp, -, rfl⟩ |
    ⟨e, replay, hp, -, rfl⟩ | ⟨e, hp, -, rfl⟩ | ⟨hp, -, rfl⟩
  · apply wired_send h (by simp [hp]) _ rfl (by simp)
    rcases opened_cases header with ho | ⟨n, ho⟩ <;> simp [ho]
  · exact ⟨fun _ => h.noEnd (by simp [hp]), by simp⟩
  · exact wired_send h (by simp [hp]) (by simp) rfl (by simp)
  · exact wired_send h (by simp [hp]) (by simp [hp]) rfl (by simp)
  · exact ⟨by simp, fun _ => ⟨a.wire, status, rfl, h.noEnd (by simp [hp])⟩⟩

/-- A record arrives that is not the end marker. -/
theorem wired_arrives (h : Wired a) (hw : a.wire = r :: b.wire) (hphase : b.phase = a.phase)
    (hr : ∀ status, r ≠ .done status) : Wired b := by
  refine ⟨?_, ?_⟩
  · intro hp status hm
    apply h.noEnd (hphase ▸ hp) status
    rw [hw]
    exact List.mem_cons_of_mem _ hm
  · intro hp
    obtain ⟨w, status, hlast, hno⟩ := h.ended (hphase ▸ hp)
    rw [hw] at hlast
    rcases w with _ | ⟨r', w⟩
    · rw [List.nil_append] at hlast
      exact absurd (List.cons.inj hlast).1 (hr status)
    · obtain ⟨-, hrest⟩ := List.cons.inj hlast
      exact ⟨w, status, hrest, fun st hm => hno st (List.mem_cons_of_mem _ hm)⟩

/-- When the end marker arrives, the generator is finished and nothing is behind
it. -/
theorem wired_end {status : RunStatus} (h : Wired a) (hw : a.wire = .done status :: wire) :
    a.phase = .finished ∧ wire = [] := by
  by_cases hp : a.phase = .finished
  · refine ⟨hp, ?_⟩
    obtain ⟨w, status', hlast, hno⟩ := h.ended hp
    rw [hw] at hlast
    rcases w with _ | ⟨r', w⟩
    · exact (List.cons.inj hlast).2
    · obtain ⟨rfl, -⟩ := List.cons.inj hlast
      exact absurd (List.mem_cons_self ..) (hno status)
  · apply absurd _ (h.noEnd hp status)
    rw [hw]
    exact List.mem_cons_self ..

end wire

end orchestra.streams
