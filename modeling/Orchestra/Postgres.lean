-- The event store on Postgres (`postgres.py`): its tables, what is appended to
-- them and announced of it, and the checkpoints.
import Orchestra.Stores
import Mathlib.Data.List.Sort

open dicts jsons latests orchestra.edges orchestra.events orchestra.coding orchestra.stores

namespace orchestra.postgres

/-! ## The database -/

/-- What the database and its driver do with an id and with a JSON text. The text
of a JSONB value is that of an equal value, with its keys in an order of its own. -/
structure Database (U : Type) where
  uuid : String → Option U
  text : U → String
  jsonb : String → Option String
  keeps : ∀ {t t' j}, jsonb t = some t' → loads t = some j →
    ∃ j', loads t' = some j' ∧ Same (valueOf j') (valueOf j)

/-- The numbers that an `INTEGER` column takes. -/
def fits32 (i : Int) : Bool := -2147483648 ≤ i && i ≤ 2147483647

/-- A `TEXT` column takes no null character. -/
def storable (s : String) : Bool := !s.toList.contains (Char.ofNat 0)

/-- A row of `workflow_runs`. -/
structure RunRow (U : Type) where
  runId : U
  workflowName : String
  status : String
  startedAt : String
  entryPoint : String
deriving DecidableEq

/-- A row of `workflow_events`. -/
structure EventRow (U : Type) where
  runId : U
  eventId : U
  eventType : String
  sequence : Int
  timestampIso : String
  data : String
deriving DecidableEq

/-- A row of `workflow_checkpoints`. -/
structure CheckpointRow (U : Type) where
  runId : U
  checkpointId : U
  nodeId : String
  interruptType : String
  sequenceAt : Int
  stateSnapshot : String
  executionContext : String
  createdAt : String
deriving DecidableEq

/-- The tables, each in the order of its row ids. -/
structure PostgresEventStore (U : Type) where
  workflowRuns : List (RunRow U)
  workflowEvents : List (EventRow U)
  workflowCheckpoints : List (CheckpointRow U)
deriving DecidableEq

namespace PostgresEventStore

variable {U : Type} [DecidableEq U]

def empty : PostgresEventStore U := ⟨[], [], []⟩

/-! ## Events -/

/-- What is sent on the channel `workflow_events`. -/
structure Notice where
  runId : String
  eventType : String
deriving DecidableEq

/-- `_ensure_run_exists`, at the time `startedAt`. -/
def ensureRunExists (runs : List (RunRow U)) (runId : U) (startedAt : String) : List (RunRow U) :=
  if runs.any (fun r => r.runId = runId) then runs
  else runs ++ [⟨runId, "", "running", startedAt, ""⟩]

/-- `append`, with what it announces. A row whose event id is there is left as it
is. It fails, and changes nothing, on a value that the tables do not take and on a
number that an event of the run has. -/
def append (codec : EventCodec) (db : Database U) (startedAt : String)
    (s : PostgresEventStore U) (e : StoreEvent) : Option (PostgresEventStore U × Notice) := do
  let payload ← codec.eventToDict e
  let runId ← db.uuid e.runId
  let eventId ← db.uuid e.eventId
  let data ← db.jsonb (dumps payload)
  let runs := ensureRunExists s.workflowRuns runId startedAt
  let notice : Notice := ⟨e.runId, e.eventType.value⟩
  if !fits32 e.sequence then none
  else if s.workflowEvents.any (fun r => r.eventId = eventId) then
    some ({ s with workflowRuns := runs }, notice)
  else if s.workflowEvents.any (fun r => r.runId = runId && r.sequence = e.sequence) then none
  else
    some ({ s with
      workflowRuns := runs
      workflowEvents := s.workflowEvents ++ [{
        runId
        eventId
        eventType := e.eventType.value
        sequence := e.sequence
        timestampIso := e.timestamp
        data }] }, notice)

/-! ## Columns -/

/-- A JSONB column as the driver gives it: as its text, or decoded when a codec is
registered. -/
inductive Column
  | text (t : String)
  | decoded (j : Json)

/-- `state if isinstance(state, dict) else json.loads(state)` -/
def stateOfColumn : Column → Option PyDict
  | .decoded (.obj members) => stateOf (.obj members)
  | .decoded _ => none
  | .text t => (loads t).bind stateOf

/-- `ctx.get("loop_counters", {}) if isinstance(ctx, dict) else {}` -/
def loopCountersOf : Column → Option Counters
  | .decoded (.obj ctx) => countersOf (contextField ctx "loop_counters" (.obj []))
  | _ => some .empty

/-- `ctx.get("node_execution_order", []) if isinstance(ctx, dict) else []` -/
def executionOrderOf : Column → Option (List String)
  | .decoded (.obj ctx) => orderOf (contextField ctx "node_execution_order" (.arr []))
  | _ => some []

/-! ## Checkpoints -/

/-- `save_checkpoint`. A row with the id of the checkpoint gets its state, its
context and its time, and keeps the rest. A new row must be of a known run. -/
def saveCheckpoint (db : Database U) (fallback : Fallback) (s : PostgresEventStore U)
    (c : Checkpoint) : Option (PostgresEventStore U) := do
  let runId ← db.uuid c.runId
  let checkpointId ← db.uuid c.checkpointId
  let stateSnapshot ← db.jsonb (safeSerialize fallback c.state)
  let executionContext ← db.jsonb (dumps (contextJson c.loopCounters c.nodeExecutionOrder))
  if !(storable c.nodeId && storable c.interruptType && fits32 c.sequenceNumber) then none
  else if s.workflowCheckpoints.any (fun r => r.checkpointId = checkpointId) then
    some { s with workflowCheckpoints := s.workflowCheckpoints.map fun r =>
      if r.checkpointId = checkpointId then
        { r with stateSnapshot, executionContext, createdAt := c.timestamp }
      else r }
  else if s.workflowRuns.any (fun r => r.runId = runId) then
    some { s with workflowCheckpoints := s.workflowCheckpoints ++ [{
      runId
      checkpointId
      nodeId := c.nodeId
      interruptType := c.interruptType
      sequenceAt := c.sequenceNumber
      stateSnapshot
      executionContext
      createdAt := c.timestamp }] }
  else none

def latestRow (s : PostgresEventStore U) (runId : U) : Option (CheckpointRow U) :=
  latest CheckpointRow.sequenceAt (s.workflowCheckpoints.filter (fun r => r.runId = runId))

/-- The checkpoint of a row. It fails when a column cannot be read. -/
def checkpointOf (driver : String → Column) (db : Database U) (runId : String)
    (r : CheckpointRow U) : Option Checkpoint := do
  let state ← stateOfColumn (driver r.stateSnapshot)
  let loopCounters ← loopCountersOf (driver r.executionContext)
  let nodeExecutionOrder ← executionOrderOf (driver r.executionContext)
  some {
    runId
    checkpointId := db.text r.checkpointId
    sequenceNumber := r.sequenceAt
    nodeId := r.nodeId
    interruptType := r.interruptType
    state
    loopCounters
    nodeExecutionOrder
    timestamp := r.createdAt
    metadata := .empty }

/-- `get_latest_checkpoint`. The outer `none` is an id or a row that cannot be read. -/
def getLatestCheckpoint (driver : String → Column) (db : Database U) (s : PostgresEventStore U)
    (runId : String) : Option (Option Checkpoint) := do
  let id ← db.uuid runId
  match s.latestRow id with
  | none => some none
  | some r => (checkpointOf driver db runId r).map some

end PostgresEventStore

/-! ## JSONB texts -/

/-- Shorter keys come first, and those of one length in the order of their letters. -/
def keyBefore (a b : String × Json) : Prop :=
  a.1.length < b.1.length ∨ a.1.length = b.1.length ∧ a.1 ≤ b.1

instance : DecidableRel keyBefore := fun a b =>
  inferInstanceAs (Decidable (a.1.length < b.1.length ∨ a.1.length = b.1.length ∧ a.1 ≤ b.1))

/-- The members of a value in their order, with those of its parts as they are. -/
def sorted : Json → Json
  | .obj members => .obj (members.insertionSort keyBefore)
  | j => j

theorem distinctMembers_iff (members : List (String × Json)) :
    DistinctMembers members ↔ ∀ m ∈ members, m.2.Distinct := by
  induction members with
  | nil => simp [DistinctMembers]
  | cons m members ih => simp [DistinctMembers, ih]

theorem distinct_sorted {j : Json} (h : j.Distinct) : (sorted j).Distinct := by
  cases j with
  | obj members =>
    have hperm := List.perm_insertionSort keyBefore members
    refine ⟨(hperm.map Prod.fst).nodup_iff.mpr h.1, ?_⟩
    rw [distinctMembers_iff]
    intro m hm
    exact (distinctMembers_iff members).mp h.2 m (hperm.subset hm)
  | _ => exact h

theorem valueOfItems_eq_map (members : List (String × Json)) :
    valueOfItems members = members.map (fun m => (m.1, valueOf m.2)) := by
  induction members with
  | nil => rfl
  | cons m members ih => simp [valueOfItems, ih]

theorem same_sorted {j : Json} (h : j.Distinct) : Same (valueOf (sorted j)) (valueOf j) := by
  cases j with
  | obj members =>
    refine .dict fun key => ?_
    have hperm : (valueOfItems (members.insertionSort keyBefore)).Perm (valueOfItems members) := by
      rw [valueOfItems_eq_map, valueOfItems_eq_map]
      exact (List.perm_insertionSort keyBefore members).map _
    rw [lookup_perm hperm (by rw [keys_valueOfItems]; exact h.1)]
    exact same_items _ key
  | _ => exact Same.refl _

/-- A database whose ids are texts, on JSON texts of which only the outermost dict has
more than one key. -/
def textDatabase : Database String where
  uuid := some
  text := id
  jsonb t := (loads t).map (fun j => dumps (sorted j))
  keeps := by
    intro t t' j ht hj
    have hdistinct := loads_distinct hj
    rw [hj] at ht
    cases ht
    exact ⟨sorted j, loads_dumps (distinct_sorted hdistinct), same_sorted hdistinct⟩

end orchestra.postgres
