-- The events of a run (`events.py`), the bus that numbers them and the log
-- that the store keeps of one run (`store.py`).
import Orchestra.Edges

open dicts

namespace orchestra.events

/-! ## The events -/

/-- What an agent and its guards report while they run. A cost is an exact
number. -/
inductive AgentEvent
  | llmCalled (agentName model : String) (content : Option String) (toolCalls : List Value)
      (inputTokens outputTokens : Nat) (costUsd : Rat) (finishReason : String)
  | toolCalled (agentName toolName : String) (arguments : PyDict) (result error : Option String)
  | securityViolation (agentName violationType : String) (details : PyDict)
  | restrictedModeEntered (riskScore : Rat) (injectionDetected : Bool) (trigger : String)
deriving DecidableEq

inductive InterruptType
  | before
  | after
deriving DecidableEq, Repr

/-- The kinds of events, each with its data. The times of an event and its
random id are left out. -/
inductive EventBody
  | executionStarted (workflowName : String) (initialState : PyDict) (entryPoint : String)
  | executionCompleted (finalState : PyDict) (totalTokens : Nat) (totalCostUsd : Rat)
      (status : String)
  | forkCreated (parentRunId : String) (forkPointSequence : Int) (newRunId : String)
  | nodeStarted (nodeId nodeType : String)
  | nodeCompleted (nodeId nodeType : String) (stateUpdate : PyDict)
  | stateUpdated (nodeId : String) (fieldUpdates resultingState : PyDict)
  | errorOccurred (nodeId errorType errorMessage : String)
  | agent (nodeId : String) (e : AgentEvent)
  | edgeTraversed (fromNode toNode edgeType : String) (conditionResult : Option String)
  | parallelStarted (sourceNode : String) (targetNodes : List String)
  | parallelCompleted (sourceNode : String) (targetNodes : List String)
  | interruptRequested (nodeId : String) (type : InterruptType)
  | interruptResumed (nodeId : String) (stateModifications : PyDict)
  | checkpointCreated (checkpointId nodeId : String) (stateSnapshot : PyDict)
  | inputRejected (nodeId agentName guardrail : String) (violationMessages : List String)
  | outputRejected (nodeId agentName contractName : String) (validationErrors : List String)
  | handoffInitiated (fromAgent toAgent reason : String)
  | handoffCompleted (fromAgent toAgent : String)
deriving DecidableEq

/-- An event in the store. -/
structure WorkflowEvent where
  runId : String
  sequence : Int
  body : EventBody
deriving DecidableEq

/-! ## The bus -/

/-- An event on its way to the bus. One that is not `numbered` takes no number
from the bus and keeps the default, 0. -/
structure Emission where
  body : EventBody
  numbered : Bool
deriving DecidableEq

/-- The counter of the bus for its run: the last number that it gave out. -/
structure EventBus where
  counter : Int
deriving DecidableEq, Repr

namespace EventBus

/-- A new bus, whose first number is 0. -/
def new : EventBus := ⟨-1⟩

def nextSequence (bus : EventBus) : Int × EventBus := (bus.counter + 1, ⟨bus.counter + 1⟩)

def setSequence (_ : EventBus) (sequence : Int) : EventBus := ⟨sequence⟩

/-- Number the emissions in their order. -/
def emitAll (runId : String) : EventBus → List Emission → List WorkflowEvent × EventBus
  | bus, [] => ([], bus)
  | bus, e :: rest =>
    if e.numbered then
      let (sequence, bus) := bus.nextSequence
      let (events, bus) := emitAll runId bus rest
      (⟨runId, sequence, e.body⟩ :: events, bus)
    else
      let (events, bus) := emitAll runId bus rest
      (⟨runId, 0, e.body⟩ :: events, bus)

theorem emitAll_numbered (runId : String) (bus : EventBus) {e : Emission} (rest : List Emission)
    (h : e.numbered = true) :
    emitAll runId bus (e :: rest) = (⟨runId, bus.counter + 1, e.body⟩ ::
      (emitAll runId ⟨bus.counter + 1⟩ rest).1, (emitAll runId ⟨bus.counter + 1⟩ rest).2) := by
  simp only [emitAll, h, if_true, nextSequence]

theorem emitAll_plain (runId : String) (bus : EventBus) {e : Emission} (rest : List Emission)
    (h : e.numbered = false) :
    emitAll runId bus (e :: rest) =
      (⟨runId, 0, e.body⟩ :: (emitAll runId bus rest).1, (emitAll runId bus rest).2) := by
  simp only [emitAll, h, Bool.false_eq_true, if_false]

theorem bodies_emitAll (runId : String) (bus : EventBus) (es : List Emission) :
    (emitAll runId bus es).1.map (·.body) = es.map (·.body) := by
  induction es generalizing bus with
  | nil => rfl
  | cons e rest ih =>
    rcases h : e.numbered with _ | _
    · rw [emitAll_plain runId bus rest h, List.map_cons, List.map_cons, ih]
    · rw [emitAll_numbered runId bus rest h, List.map_cons, List.map_cons, ih]

end EventBus

/-! ## The projection -/

/-- One turn of the loop of `project_state`. `given` says that the caller gave
an initial state that is not empty. -/
def projectEvent (given : Bool) (state : PyDict) : EventBody → PyDict
  | .executionStarted _ initialState _ => if given then state else initialState
  | .checkpointCreated _ _ snapshot => snapshot
  | .nodeCompleted _ _ stateUpdate => state.update stateUpdate
  | .stateUpdated _ fieldUpdates resultingState =>
    if resultingState.entries.isEmpty then state.update fieldUpdates else resultingState
  | _ => state

/-- Rebuild the state from the events of a run. -/
def projectState (events : List EventBody) (initialState : PyDict) : PyDict :=
  events.foldl (projectEvent (!initialState.entries.isEmpty)) initialState

end orchestra.events
