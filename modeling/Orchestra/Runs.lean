-- The calls of `compiled.py` on a run: `run`, `resume` and `fork`, and the
-- record of the run that they read and extend in the store.
import Orchestra.Compiled

open dicts logged orchestra.state orchestra.edges orchestra.events orchestra.nodes
open orchestra.compiled

namespace orchestra.runs

/-! ## The record of a run -/

/-- A snapshot from which a run can go on. -/
structure Checkpoint where
  runId : String
  sequenceNumber : Int
  nodeId : String
  interruptType : InterruptType
  state : PyDict
  loopCounters : Counters
  nodeExecutionOrder : List String

/-- What the event store holds under one run id. -/
structure RunRecord where
  events : List WorkflowEvent
  checkpoints : List Checkpoint

namespace RunRecord

def empty : RunRecord := ⟨[], []⟩

def append (r : RunRecord) (events : List WorkflowEvent) : RunRecord :=
  { r with events := r.events ++ events }

/-- `get_events(run_id, after_sequence=n)` -/
def getEvents (r : RunRecord) (afterSequence : Int) : List WorkflowEvent :=
  r.events.filter (fun e => afterSequence < e.sequence)

def latestCheckpoint (r : RunRecord) : Option Checkpoint := r.checkpoints.getLast?

def saveCheckpoint (r : RunRecord) (cp : Checkpoint) : RunRecord :=
  { r with checkpoints := r.checkpoints ++ [cp] }

/-- Put what a call wrote on the bus, and save its checkpoint when it paused.
The number of a checkpoint comes from the bus too. -/
def publish (r : RunRecord) (runId : String) (bus : EventBus) (call : EngineRun) : RunRecord :=
  let (events, bus) := bus.emitAll runId (emissions call.log)
  match call.outcome with
  | .interrupted p =>
    (r.append events).saveCheckpoint
      ⟨runId, bus.nextSequence.1, p.nodeId, p.type, p.state, p.loopCounters, p.nodeExecutionOrder⟩
  | _ => r.append events

theorem events_publish (r : RunRecord) (runId : String) (bus : EventBus) (call : EngineRun) :
    (r.publish runId bus call).events =
      r.events ++ (bus.emitAll runId (emissions call.log)).1 := by
  unfold publish
  rcases call.outcome with state | p | e <;> rfl

end RunRecord

/-- `_run_loop`, after the notes `before`. It validates the state outside of
its `try`, so a state that is not valid ends the call without a last event. -/
def runFrom (G : CompiledGraph) (env : Env) (metered : Bool) (before : List Note)
    (stateDict : PyDict) (start : WorkflowState G.schema → Loop G.schema) : EngineRun :=
  match WorkflowState.ofDict G.schema stateDict with
  | .error e => ⟨before, .raised e⟩
  | .ok state => finish env metered before (runLoop G env (start state))

/-! ## run -/

/-- A new context, as `ExecutionContext(run_id=...)` builds it. -/
def freshCtx (runId : String) : Ctx where
  runId
  nodeId := ""
  turnNumber := 0
  config := .empty
  restrictedMode := false
  replayEvents := []
  hasBus := false
  loopCounters := .empty
  nodeExecutionOrder := []
  moment := ⟨[], none⟩

/-- The arguments of `run`. The context is a new one when the caller gives
none. -/
structure RunInput where
  initialState : PyDict
  startAt : Option Target
  context : Ctx

/-- `start_at or self._entry_point` -/
def RunInput.start (input : RunInput) (G : CompiledGraph) : Target :=
  match input.startAt with
  | some (.node id) => if id = "" then .node G.entryPoint else .node id
  | some .END => .END
  | none => .node G.entryPoint

/-- `self._name or "workflow"` -/
def workflowName (G : CompiledGraph) : String := if G.name = "" then "workflow" else G.name

def startedNote (G : CompiledGraph) (input : RunInput) : Note :=
  .emit ⟨.executionStarted (workflowName G) input.initialState G.entryPoint, true⟩

def runStart (G : CompiledGraph) (input : RunInput) (state : WorkflowState G.schema) :
    Loop G.schema :=
  ⟨input.start G, state, { input.context with hasBus := true }, false⟩

/-- `run` -/
def run (G : CompiledGraph) (env : Env) (input : RunInput) : EngineRun :=
  runFrom G env true [startedNote G input] input.initialState (runStart G input)

theorem run_invalid (G : CompiledGraph) (env : Env) (input : RunInput) {e : EngineError}
    (h : WorkflowState.ofDict G.schema input.initialState = .error e) :
    run G env input = ⟨[startedNote G input], .raised e⟩ := by
  unfold run runFrom
  simp only [h]

theorem run_valid (G : CompiledGraph) (env : Env) (input : RunInput)
    {state : WorkflowState G.schema}
    (h : WorkflowState.ofDict G.schema input.initialState = .ok state) :
    run G env input =
      finish env true [startedNote G input] (runLoop G env (runStart G input state)) := by
  unfold run runFrom
  simp only [h]

/-! ## resume -/

def resumedNote (cp : Checkpoint) (stateUpdates : PyDict) : Note :=
  .emit ⟨.interruptResumed cp.nodeId stateUpdates, true⟩

/-- Where a resumed run starts. The turns count from 0 again. -/
def resumeStart (G : CompiledGraph) (cp : Checkpoint) (state : WorkflowState G.schema) :
    Loop G.schema where
  current := .node cp.nodeId
  state
  ctx := { freshCtx cp.runId with
    hasBus := true
    loopCounters := cp.loopCounters
    nodeExecutionOrder := cp.nodeExecutionOrder }
  bypass := cp.interruptType = .before

/-- `resume`, from the checkpoint that the store has. -/
def resume (G : CompiledGraph) (env : Env) (stateUpdates : PyDict) (cp : Checkpoint) :
    EngineRun :=
  runFrom G env false [resumedNote cp stateUpdates] (cp.state.update stateUpdates)
    (resumeStart G cp)

/-! ## fork -/

/-- What `get_state_at` finds out about a moment of a run. -/
structure HistoricalState where
  state : PyDict
  nodeId : String
  turnNumber : Nat

def startedNode? : EventBody → Option String
  | .nodeStarted nodeId _ => some nodeId
  | _ => none

def entryPoint? : EventBody → Option String
  | .executionStarted _ _ entryPoint => some entryPoint
  | _ => none

/-- The node of the last `NodeStarted`, else the entry point, else `unknown`.
A node with the id `unknown` counts as none found. -/
def activeNode (events : List EventBody) : String :=
  let nodeId := ((events.filterMap startedNode?).getLast?).getD "unknown"
  if nodeId = "unknown" then ((events.filterMap entryPoint?).head?).getD "unknown" else nodeId

/-- `get_state_at` -/
def getStateAt (r : RunRecord) (runId : String) (sequenceNumber : Int) :
    Except EngineError HistoricalState :=
  let historical := ((r.getEvents (-1)).filter (fun e => e.sequence ≤ sequenceNumber)).map (·.body)
  if historical.isEmpty then .error (.noEvents runId sequenceNumber)
  else .ok {
    state := projectState historical .empty
    nodeId := activeNode historical
    turnNumber := (historical.filterMap startedNode?).length }

structure ForkPoint where
  newRunId : String
  state : PyDict
  nextNode : Target

/-- `fork`. The way out of the node is resolved in a new context, which has no
bus. The caller gets the dict that the resolution was given, with what it wrote
there, and the state that it returned is dropped. -/
def fork (G : CompiledGraph) (env : Env) (r : RunRecord) (parentRunId : String)
    (sequenceNumber : Int) (stateOverrides : PyDict) (newRunId : String) : Eng ForkPoint := do
  let history ← Logged.ofExcept (getStateAt r parentRunId sequenceNumber)
  let stateDict := history.state.update stateOverrides
  let state ← Logged.ofExcept (WorkflowState.ofDict G.schema stateDict)
  let next ← resolveNext G env (freshCtx newRunId) history.nodeId stateDict state
  pure ⟨newRunId, next.stateDict, next.next⟩

/-- The event that `fork` appends to the record of the parent, past the bus. -/
def forkEvent (parentRunId : String) (sequenceNumber : Int) (newRunId : String) : WorkflowEvent :=
  ⟨parentRunId, 0, .forkCreated parentRunId sequenceNumber newRunId⟩

/-! ## The calls -/

/-- A call on a run, with what lies outside of the engine while it runs. -/
inductive Call
  | run (env : Env) (input : RunInput)
  | resume (env : Env) (stateUpdates : PyDict)
  | fork (env : Env) (sequenceNumber : Int) (stateOverrides : PyDict) (newRunId : String)

/-- What the caller gets. A fork that went well gives a fork point. -/
inductive CallResult
  | ended (outcome : Outcome)
  | forked (point : ForkPoint)

/-- A call on the run `runId`: the record after it, its log and its result. -/
def Call.exec (G : CompiledGraph) (runId : String) (r : RunRecord) :
    Call → RunRecord × List Note × CallResult
  | .run env input =>
    let call := runs.run G env { input with context := { input.context with runId } }
    (r.publish runId .new call, call.log, .ended call.outcome)
  | .resume env stateUpdates =>
    match r.latestCheckpoint with
    | none => (r, [], .ended (.raised (.noCheckpoint runId)))
    | some cp =>
      let call := runs.resume G env stateUpdates cp
      (r.publish runId (EventBus.new.setSequence cp.sequenceNumber) call, call.log,
        .ended call.outcome)
  | .fork env sequenceNumber stateOverrides newRunId =>
    let x := runs.fork G env r runId sequenceNumber stateOverrides newRunId
    match x.result with
    | .error e => (r, x.log, .ended (.raised e))
    | .ok point =>
      (r.append [forkEvent runId sequenceNumber newRunId], x.log, .forked point)

/-! ## Small graphs -/

/-- Branches write one after the other, and a call of a model costs nothing. -/
def inOrder : Env where
  gather := List.flatten
  gather_perm _ := .refl _
  gather_order _ _ h := List.sublist_flatten_of_mem h
  price _ _ _ := 0

/-- A node whose update is a function of the state. -/
def pureNode (name : String) (f : PyDict → PyDict) : FunctionNode where
  func state _ := .ok (f state)
  name
  interruptBefore := false
  interruptAfter := false

/-- An agent that always answers with the same text, and calls nothing. -/
def answering (name output : String) : AgentNode where
  agentName := name
  run _ ctx := ⟨[], ctx.restrictedMode, .ok ⟨name, output, none, [], .empty⟩⟩
  outputKey := none
  mapOutput := false
  inputMapper := none
  outputMapper := none
  interruptBefore := false
  interruptAfter := false

/-- The input of a plain `run(initial_state)`. -/
def plainInput (initialState : PyDict) : RunInput := ⟨initialState, none, freshCtx "run"⟩

end orchestra.runs
