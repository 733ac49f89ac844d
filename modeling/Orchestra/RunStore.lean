-- The store of a run in the user interface (`eventReducer.ts`,
-- `useRunStore.ts`): one reducer turns the events into what the page shows, and
-- the history replaces what the stream appends to.
import Orchestra.Events

open dicts orchestra.state orchestra.events

namespace orchestra.run_store

/-! ## The reducer -/

inductive NodeStatus
  | pending
  | running
  | completed
  | error
  | waiting
deriving DecidableEq

structure NodeData where
  cost : Rat
  model : Option String
  toolCount : Nat
  securityCount : Nat
  awaitingResume : Bool
deriving DecidableEq

inductive MetricsStatus
  | pending
  | running
  | completed
  | error
deriving DecidableEq

/-- The start time and the duration are left out. -/
structure RunMetrics where
  status : MetricsStatus
  totalCost : Rat
  totalTokens : Nat
  workflowName : Option String
deriving DecidableEq

structure ReducerState where
  nodeStatuses : Dict String NodeStatus
  nodeData : Dict String NodeData
  currentState : PyDict
  metrics : RunMetrics

def initialReducerState : ReducerState := ⟨.empty, .empty, .empty, ⟨.pending, 0, 0, none⟩⟩

namespace ReducerState

def nodeDataFor (s : ReducerState) (nodeId : String) : NodeData :=
  (s.nodeData.get? nodeId).getD ⟨0, none, 0, 0, false⟩

def setStatus (s : ReducerState) (nodeId : String) (status : NodeStatus) : ReducerState :=
  { s with nodeStatuses := s.nodeStatuses.set nodeId status }

def setStatuses (s : ReducerState) (nodeIds : List String) (status : NodeStatus) : ReducerState :=
  { s with nodeStatuses := s.nodeStatuses.setAll (nodeIds.map fun n => (n, status)) }

def setData (s : ReducerState) (nodeId : String) (f : NodeData → NodeData) : ReducerState :=
  { s with nodeData := s.nodeData.set nodeId (f (s.nodeDataFor nodeId)) }

def markSecure (s : ReducerState) (nodeId : String) : ReducerState :=
  s.setData nodeId fun d => { d with securityCount := d.securityCount + 1 }

end ReducerState

/-- What the report of an agent does to the node that it runs in. -/
def agentReducer (s : ReducerState) (nodeId : String) : AgentEvent → ReducerState
  | .llmCalled _ model _ _ inputTokens outputTokens costUsd _ =>
    { s.setData nodeId fun d => { d with cost := d.cost + costUsd, model := some model } with
      metrics := { s.metrics with
        totalCost := s.metrics.totalCost + costUsd
        totalTokens := s.metrics.totalTokens + inputTokens + outputTokens } }
  | .toolCalled .. => s.setData nodeId fun d => { d with toolCount := d.toolCount + 1 }
  | .securityViolation .. => s.markSecure nodeId
  | .restrictedModeEntered .. => s.markSecure nodeId

/-- `eventReducer`, with its patch merged into the state. -/
def eventReducer (s : ReducerState) : EventBody → ReducerState
  | .executionStarted workflowName initialState _ =>
    { s with
      metrics := { s.metrics with status := .running, workflowName := some workflowName }
      currentState := initialState }
  | .executionCompleted finalState totalTokens totalCostUsd status =>
    { s with
      metrics := { s.metrics with
        status := if status = "error" then .error else .completed
        totalCost := totalCostUsd
        totalTokens }
      currentState := finalState }
  | .forkCreated .. => s
  | .nodeStarted nodeId _ => s.setStatus nodeId .running
  | .nodeCompleted nodeId _ stateUpdate =>
    { s.setStatus nodeId .completed with currentState := s.currentState.update stateUpdate }
  | .stateUpdated _ fieldUpdates resultingState =>
    { s with currentState :=
        if resultingState.entries.isEmpty then s.currentState.update fieldUpdates
        else resultingState }
  | .errorOccurred nodeId _ _ =>
    { s.setStatus nodeId .error with metrics := { s.metrics with status := .error } }
  | .agent nodeId e => agentReducer s nodeId e
  | .edgeTraversed .. => s
  | .parallelStarted _ targetNodes => s.setStatuses targetNodes .running
  | .parallelCompleted _ targetNodes => s.setStatuses targetNodes .completed
  | .interruptRequested nodeId _ =>
    (s.setStatus nodeId .waiting).setData nodeId fun d => { d with awaitingResume := true }
  | .interruptResumed nodeId stateModifications =>
    { (s.setStatus nodeId .running).setData nodeId fun d => { d with awaitingResume := false } with
      currentState := s.currentState.update stateModifications }
  | .checkpointCreated _ _ stateSnapshot => { s with currentState := stateSnapshot }
  | .inputRejected nodeId .. => s.markSecure nodeId
  | .outputRejected nodeId .. => s.markSecure nodeId
  | .handoffInitiated .. => s
  | .handoffCompleted .. => s

/-- The events of a run through the reducer. -/
def reduceAll (s : ReducerState) (events : List WorkflowEvent) : ReducerState :=
  events.foldl (fun s e => eventReducer s e.body) s

theorem reduceAll_append (s : ReducerState) (xs ys : List WorkflowEvent) :
    reduceAll s (xs ++ ys) = reduceAll (reduceAll s xs) ys := by
  unfold reduceAll
  rw [List.foldl_append]

/-- The data of a `RunSlice`. The graph and the state of the connection are left
out. -/
structure RunSlice where
  events : List WorkflowEvent
  shown : ReducerState

namespace RunSlice

def new : RunSlice := ⟨[], initialReducerState⟩

end RunSlice

end orchestra.run_store
