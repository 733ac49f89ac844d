-- The event stores in memory (`store.py`) and on SQLite (`sqlite.py`), with the
-- operations of the `EventStore` protocol.
import Orchestra.Coding
import Orchestra.Events
import Orchestra.Lib.Latest

open dicts jsons latests orchestra.edges orchestra.events orchestra.coding

namespace orchestra.stores

/-! ## What a store is given -/

inductive EventType
  | executionStarted
  | executionCompleted
  | forkCreated
  | nodeStarted
  | nodeCompleted
  | stateUpdated
  | errorOccurred
  | llmCalled
  | toolCalled
  | edgeTraversed
  | parallelStarted
  | parallelCompleted
  | interruptRequested
  | interruptResumed
  | checkpointCreated
  | securityViolation
  | restrictedModeEntered
  | inputRejected
  | outputRejected
  | handoffInitiated
  | handoffCompleted
deriving DecidableEq, Repr

/-- The text of the enumeration. -/
def EventType.value : EventType → String
  | .executionStarted => "execution.started"
  | .executionCompleted => "execution.completed"
  | .forkCreated => "execution.forked"
  | .nodeStarted => "node.started"
  | .nodeCompleted => "node.completed"
  | .stateUpdated => "state.updated"
  | .errorOccurred => "error.occurred"
  | .llmCalled => "llm.called"
  | .toolCalled => "tool.called"
  | .edgeTraversed => "edge.traversed"
  | .parallelStarted => "parallel.started"
  | .parallelCompleted => "parallel.completed"
  | .interruptRequested => "interrupt.requested"
  | .interruptResumed => "interrupt.resumed"
  | .checkpointCreated => "checkpoint.created"
  | .securityViolation => "security.violation"
  | .restrictedModeEntered => "security.restricted_mode_entered"
  | .inputRejected => "input.rejected"
  | .outputRejected => "output.rejected"
  | .handoffInitiated => "handoff.initiated"
  | .handoffCompleted => "handoff.completed"

def typeOf : EventBody → EventType
  | .executionStarted .. => .executionStarted
  | .executionCompleted .. => .executionCompleted
  | .forkCreated .. => .forkCreated
  | .nodeStarted .. => .nodeStarted
  | .nodeCompleted .. => .nodeCompleted
  | .stateUpdated .. => .stateUpdated
  | .errorOccurred .. => .errorOccurred
  | .agent _ (.llmCalled ..) => .llmCalled
  | .agent _ (.toolCalled ..) => .toolCalled
  | .agent _ (.securityViolation ..) => .securityViolation
  | .agent _ (.restrictedModeEntered ..) => .restrictedModeEntered
  | .edgeTraversed .. => .edgeTraversed
  | .parallelStarted .. => .parallelStarted
  | .parallelCompleted .. => .parallelCompleted
  | .interruptRequested .. => .interruptRequested
  | .interruptResumed .. => .interruptResumed
  | .checkpointCreated .. => .checkpointCreated
  | .inputRejected .. => .inputRejected
  | .outputRejected .. => .outputRejected
  | .handoffInitiated .. => .handoffInitiated
  | .handoffCompleted .. => .handoffCompleted

def EventType.all : List EventType :=
  [.executionStarted, .executionCompleted, .forkCreated, .nodeStarted, .nodeCompleted,
    .stateUpdated, .errorOccurred, .llmCalled, .toolCalled, .edgeTraversed, .parallelStarted,
    .parallelCompleted, .interruptRequested, .interruptResumed, .checkpointCreated,
    .securityViolation, .restrictedModeEntered, .inputRejected, .outputRejected,
    .handoffInitiated, .handoffCompleted]

theorem EventType.mem_all (t : EventType) : t ∈ EventType.all := by
  cases t <;> decide

theorem value_injective {a b : EventType} (h : a.value = b.value) : a = b := by
  have hall : ∀ a ∈ EventType.all, ∀ b ∈ EventType.all, a.value = b.value → a = b := by
    decide +kernel
  exact hall a a.mem_all b b.mem_all h

/-- An event with its id and its time, which is kept as its ISO text. -/
structure StoreEvent where
  eventId : String
  runId : String
  timestamp : String
  sequence : Int
  body : EventBody
deriving DecidableEq

def StoreEvent.eventType (e : StoreEvent) : EventType := typeOf e.body

structure Checkpoint where
  runId : String
  checkpointId : String
  sequenceNumber : Int
  nodeId : String
  interruptType : String
  state : PyDict
  loopCounters : Counters
  nodeExecutionOrder : List String
  timestamp : String
  metadata : PyDict
deriving DecidableEq

structure RunSummary where
  runId : String
  workflowName : String
  status : String
  startedAt : String
  completedAt : Option String
  eventCount : Nat
deriving DecidableEq

/-- `event_to_dict` and `dict_to_event`, which pydantic provides. The first fails
on a value that it cannot serialize, the second on one that fits no event. The
last two fields say what is relied on: a dump is a proper dict, and the id of an
event is a text that comes back as it is. -/
structure EventCodec where
  eventToDict : StoreEvent → Option Json
  dictToEvent : Json → Option StoreEvent
  distinct : ∀ {e j}, eventToDict e = some j → j.Distinct
  keeps_id : ∀ {e j e'}, eventToDict e = some j → dictToEvent j = some e' → e'.eventId = e.eventId

/-- `l[:limit]` -/
def upTo {α : Type} (limit : Int) (l : List α) : List α :=
  if 0 ≤ limit then l.take limit.toNat else l.take (l.length - (-limit).toNat)

/-! ## In memory -/

/-- The entry of a run in `_run_meta`. A key that is not set is `none`. -/
structure RunMeta where
  workflowName : Option String
  status : Option String
  startedAt : Option String
  completedAt : Option String
deriving DecidableEq

structure InMemoryEventStore where
  events : Dict String (List StoreEvent)
  checkpoints : Dict String (List Checkpoint)
  runMeta : Dict String RunMeta

namespace InMemoryEventStore

def empty : InMemoryEventStore := ⟨.empty, .empty, .empty⟩

/-- The run metadata after an event. -/
def trackMeta (runMeta : Dict String RunMeta) (e : StoreEvent) : Dict String RunMeta :=
  match e.body with
  | .executionStarted workflowName _ _ =>
    runMeta.set e.runId ⟨some workflowName, some "running", some e.timestamp, none⟩
  | .executionCompleted .. =>
    let old := (runMeta.get? e.runId).getD ⟨none, none, none, none⟩
    runMeta.set e.runId { old with status := some "completed", completedAt := some e.timestamp }
  | _ => runMeta

def append (s : InMemoryEventStore) (e : StoreEvent) : InMemoryEventStore :=
  { s with
    events := s.events.set e.runId ((s.events.get? e.runId).getD [] ++ [e])
    runMeta := trackMeta s.runMeta e }

def getEvents (s : InMemoryEventStore) (runId : String) (afterSequence : Int)
    (eventTypes : Option (List EventType)) : List StoreEvent :=
  let filtered := ((s.events.get? runId).getD []).filter (fun e => e.sequence > afterSequence)
  match eventTypes with
  | none | some [] => filtered
  | some types => filtered.filter (fun e => types.contains e.eventType)

def saveCheckpoint (s : InMemoryEventStore) (c : Checkpoint) : InMemoryEventStore :=
  { s with checkpoints := s.checkpoints.set c.runId ((s.checkpoints.get? c.runId).getD [] ++ [c]) }

def getLatestCheckpoint (s : InMemoryEventStore) (runId : String) : Option Checkpoint :=
  ((s.checkpoints.get? runId).getD []).getLast?

/-- The runs that pass the filter. An empty status filters nothing. -/
def passing (s : InMemoryEventStore) (status : Option String) : List (String × RunMeta) :=
  s.runMeta.entries.filter fun e =>
    match status with
    | none | some "" => true
    | some status => e.2.status = some status

def listRuns (s : InMemoryEventStore) (limit : Int) (status : Option String) : List RunSummary :=
  upTo limit ((s.passing status).map fun e => {
    runId := e.1
    workflowName := e.2.workflowName.getD ""
    status := e.2.status.getD "unknown"
    startedAt := e.2.startedAt.getD ""
    completedAt := none
    eventCount := ((s.events.get? e.1).getD []).length })

end InMemoryEventStore

/-! ## On SQLite -/

/-- A row of `workflow_runs`. -/
structure RunRow where
  runId : String
  workflowName : String
  status : String
  startedAt : String
  completedAt : Option String
  entryPoint : Option String
deriving DecidableEq

/-- A row of `workflow_events`. -/
structure EventRow where
  runId : String
  eventId : String
  eventType : String
  sequence : Int
  timestampIso : String
  data : String
deriving DecidableEq

/-- A row of `workflow_checkpoints`. -/
structure CheckpointRow where
  runId : String
  checkpointId : String
  nodeId : String
  interruptType : String
  sequenceAt : Int
  stateSnapshot : String
  executionContext : String
  createdAt : String
deriving DecidableEq

/-- The tables, each in the order of its row ids: a new row takes the next one. -/
structure SQLiteEventStore where
  workflowRuns : List RunRow
  workflowEvents : List EventRow
  workflowCheckpoints : List CheckpointRow
deriving DecidableEq

namespace SQLiteEventStore

def empty : SQLiteEventStore := ⟨[], [], []⟩

/-- The numbers that a query can be given. -/
def fits64 (i : Int) : Bool := -9223372036854775808 ≤ i && i ≤ 9223372036854775807

/-- `append`. A row whose event id is there is ignored. It fails when the event
cannot be serialized. -/
def append (codec : EventCodec) (s : SQLiteEventStore) (e : StoreEvent) : Option SQLiteEventStore :=
  match codec.eventToDict e with
  | none => none
  | some data =>
    if !fits64 e.sequence then none
    else if s.workflowEvents.any (fun r => r.eventId = e.eventId) then some s
    else
      some { s with workflowEvents := s.workflowEvents ++ [{
        runId := e.runId
        eventId := e.eventId
        eventType := e.eventType.value
        sequence := e.sequence
        timestampIso := e.timestamp
        data := dumps data }] }

/-- The rows that a query of `get_events` selects. -/
def selectedRows (s : SQLiteEventStore) (runId : String) (afterSequence : Int)
    (eventTypes : Option (List EventType)) : List EventRow :=
  let rows := s.workflowEvents.filter (fun r => r.runId = runId && r.sequence > afterSequence)
  match eventTypes with
  | none | some [] => rows
  | some types => rows.filter (fun r => (types.map EventType.value).contains r.eventType)

/-- The rows in sequence order. Those of one number come in the order of the
index, which goes on with the row id. -/
def eventRows (s : SQLiteEventStore) (runId : String) (afterSequence : Int)
    (eventTypes : Option (List EventType)) : List EventRow :=
  (s.selectedRows runId afterSequence eventTypes).mergeSort (fun a b => a.sequence ≤ b.sequence)

/-- `dict_to_event(json.loads(row["data"]))` -/
def eventOf (codec : EventCodec) (r : EventRow) : Option StoreEvent :=
  (loads r.data).bind codec.dictToEvent

/-- `get_events`. It fails when a row cannot be read. -/
def getEvents (codec : EventCodec) (s : SQLiteEventStore) (runId : String) (afterSequence : Int)
    (eventTypes : Option (List EventType)) : Option (List StoreEvent) :=
  if fits64 afterSequence then
    (s.eventRows runId afterSequence eventTypes).mapM (eventOf codec)
  else none

def rowOf (fallback : Fallback) (c : Checkpoint) : CheckpointRow where
  runId := c.runId
  checkpointId := c.checkpointId
  nodeId := c.nodeId
  interruptType := c.interruptType
  sequenceAt := c.sequenceNumber
  stateSnapshot := safeSerialize fallback c.state
  executionContext := dumps (contextJson c.loopCounters c.nodeExecutionOrder)
  createdAt := c.timestamp

/-- `save_checkpoint`. A row with the id of the checkpoint makes way for it. -/
def saveCheckpoint (fallback : Fallback) (s : SQLiteEventStore) (c : Checkpoint) :
    Option SQLiteEventStore :=
  if fits64 c.sequenceNumber then
    some { s with workflowCheckpoints :=
      s.workflowCheckpoints.filter (fun r => r.checkpointId ≠ c.checkpointId) ++
        [rowOf fallback c] }
  else none

def latestRow (s : SQLiteEventStore) (runId : String) : Option CheckpointRow :=
  latest CheckpointRow.sequenceAt (s.workflowCheckpoints.filter (fun r => r.runId = runId))

/-- The checkpoint of a row. It fails when a column cannot be read. -/
def checkpointOf (r : CheckpointRow) : Option Checkpoint := do
  let state ← (loads r.stateSnapshot).bind stateOf
  match ← loads r.executionContext with
  | .obj ctx =>
    let loopCounters ← countersOf (contextField ctx "loop_counters" (.obj []))
    let nodeExecutionOrder ← orderOf (contextField ctx "node_execution_order" (.arr []))
    some {
      runId := r.runId
      checkpointId := r.checkpointId
      sequenceNumber := r.sequenceAt
      nodeId := r.nodeId
      interruptType := r.interruptType
      state
      loopCounters
      nodeExecutionOrder
      timestamp := r.createdAt
      metadata := .empty }
  | _ => none

/-- What is written of a checkpoint and read again has all but the metadata. -/
theorem checkpointOf_rowOf (fallback : Fallback) (c : Checkpoint) :
    checkpointOf (rowOf fallback c) =
      ((loads (safeSerialize fallback c.state)).bind stateOf).map
        (fun state => { c with state, metadata := .empty }) := by
  have hctx := loads_dumps (distinct_contextJson c.loopCounters c.nodeExecutionOrder)
  simp only [checkpointOf, rowOf, hctx]
  rcases (loads (safeSerialize fallback c.state)).bind stateOf with _ | state
  · rfl
  · simp [contextJson, contextField_loop_counters, contextField_node_execution_order,
      countersOf_counters, orderOf_names]

/-- `get_latest_checkpoint`. The outer `none` is a row that cannot be read. -/
def getLatestCheckpoint (s : SQLiteEventStore) (runId : String) : Option (Option Checkpoint) :=
  match s.latestRow runId with
  | none => some none
  | some r => (checkpointOf r).map some

/-- `create_run`, at the time `startedAt`. -/
def createRun (s : SQLiteEventStore) (runId workflowName entryPoint startedAt : String) :
    SQLiteEventStore :=
  if s.workflowRuns.any (fun r => r.runId = runId) then s
  else
    { s with workflowRuns := s.workflowRuns ++
        [⟨runId, workflowName, "running", startedAt, none, some entryPoint⟩] }

/-- `LIMIT ?`. A negative limit is none. -/
def limited {α : Type} (limit : Int) (l : List α) : List α :=
  if 0 ≤ limit then l.take limit.toNat else l

def listRuns (s : SQLiteEventStore) (limit : Int) (status : Option String) :
    Option (List RunSummary) :=
  let rows := s.workflowRuns.filter fun r =>
    match status with
    | none | some "" => true
    | some status => r.status = status
  let sorted := rows.mergeSort (fun a b => decide (b.startedAt ≤ a.startedAt))
  if fits64 limit then
    some ((limited limit sorted).map fun r => {
      runId := r.runId
      workflowName := r.workflowName
      status := r.status
      startedAt := r.startedAt
      completedAt := r.completedAt
      eventCount := s.workflowEvents.countP (fun e => e.runId = r.runId) })
  else none

end SQLiteEventStore

end orchestra.stores
