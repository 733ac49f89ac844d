-- The nodes of a graph (`nodes.py`) and how the engine runs one of them
-- (`_execute_node` and `_execute_agent_node` of `compiled.py`).
import Orchestra.Events
import Orchestra.Lib.Logged

open dicts logged orchestra.state orchestra.events

namespace orchestra.nodes

/-! ## What the engine leaves behind -/

/-- The log of a run. An `emit` goes to the bus. The rest is what an observer
of the engine sees: it calls a node, it builds an update of its own with these
keys, it holds this state when a node of the main path is completed. -/
inductive Note
  | emit (e : Emission)
  | ran (nodeId : String)
  | built (keys : List String)
  | holds (state : PyDict)
deriving DecidableEq

def Note.emission? : Note → Option Emission
  | .emit e => some e
  | _ => none

def Note.ran? : Note → Option String
  | .ran nodeId => some nodeId
  | _ => none

/-- The emissions of a log, in their order. -/
def emissions (log : List Note) : List Emission := log.filterMap Note.emission?

/-- The nodes that a log says were called, in their order. -/
def ranNodes (log : List Note) : List String := log.filterMap Note.ran?

theorem emissions_append (l m : List Note) : emissions (l ++ m) = emissions l ++ emissions m :=
  List.filterMap_append

theorem ranNodes_append (l m : List Note) : ranNodes (l ++ m) = ranNodes l ++ ranNodes m :=
  List.filterMap_append

abbrev Eng := Logged Note EngineError

def emit (body : EventBody) : Eng Unit := Logged.note (.emit ⟨body, true⟩)

/-- What outside code returned or raised. -/
def outside {α : Type} (r : Except Raised α) : Eng α :=
  match r with
  | .ok a => pure a
  | .error e => Logged.fail (.raised e)

/-! ## The context -/

structure Guardrail where
  name : String
  validateInput : Option (List Value → Except Raised (List String))
  validateOutput : Option (String → Except Raised (List String))

/-- The part of `context.config` that the engine reads. -/
structure Config where
  guardrails : List Guardrail
  guardrailsFail : String

def Config.empty : Config := ⟨[], "refuse"⟩

/-- Which call of a run it is. Code whose answer is not settled by its input
alone answers by the moment of the call. -/
structure Moment where
  order : List String
  branch : Option Nat

/-- The context as one node sees it. -/
structure Ctx where
  runId : String
  nodeId : String
  turnNumber : Nat
  config : Config
  restrictedMode : Bool
  replayEvents : List EventBody
  hasBus : Bool
  loopCounters : edges.Counters
  nodeExecutionOrder : List String
  moment : Moment

def Ctx.replayMode (ctx : Ctx) : Bool := !ctx.replayEvents.isEmpty

/-- `clone_for_branch`, for the branch with the number `i`. -/
def Ctx.cloneForBranch (ctx : Ctx) (nodeId : String) (i : Nat) : Ctx where
  runId := ctx.runId
  nodeId
  turnNumber := 0
  config := ctx.config
  restrictedMode := ctx.restrictedMode
  replayEvents := ctx.replayEvents
  hasBus := ctx.hasBus
  loopCounters := .empty
  nodeExecutionOrder := []
  moment := ⟨ctx.nodeExecutionOrder, some i⟩

/-! ## The nodes -/

/-- The part of an agent's result that the engine reads. `structuredOutput` is
its dump. -/
structure AgentResult where
  agentName : String
  output : String
  structuredOutput : Option PyDict
  messages : List Value
  stateUpdates : PyDict

/-- One run of an agent: what it emits, whether the context is in restricted
mode after it, and its result. -/
structure AgentRun where
  events : List (AgentEvent × Bool)
  restrictedMode : Bool
  result : Except Raised AgentResult

structure AgentNode where
  agentName : String
  run : Value → Ctx → AgentRun
  outputKey : Option String
  mapOutput : Bool
  inputMapper : Option (PyDict → Except Raised Value)
  outputMapper : Option (AgentResult → Except Raised PyDict)
  interruptBefore : Bool
  interruptAfter : Bool

/-- `None` as the result of a function counts as an empty update. -/
structure FunctionNode where
  func : PyDict → Moment → Except Raised PyDict
  name : String
  interruptBefore : Bool
  interruptAfter : Bool

/-- `run` is the run of the nested graph, under its own run id. -/
structure SubgraphNode where
  run : PyDict → Moment → Except Raised PyDict
  inputMapper : Option (PyDict → Except Raised PyDict)
  outputMapper : Option (PyDict → Except Raised PyDict)
  interruptBefore : Bool
  interruptAfter : Bool

inductive GraphNode
  | agent (node : AgentNode)
  | function (node : FunctionNode)
  | subgraph (node : SubgraphNode)

namespace GraphNode

/-- `type(node).__name__` -/
def typeName : GraphNode → String
  | .agent _ => "AgentNode"
  | .function _ => "FunctionNode"
  | .subgraph _ => "SubgraphNode"

def interruptBefore : GraphNode → Bool
  | .agent n => n.interruptBefore
  | .function n => n.interruptBefore
  | .subgraph n => n.interruptBefore

def interruptAfter : GraphNode → Bool
  | .agent n => n.interruptAfter
  | .function n => n.interruptAfter
  | .subgraph n => n.interruptAfter

/-- The same node without its interrupt flags. -/
def clearFlags : GraphNode → GraphNode
  | .agent n => .agent { n with interruptBefore := false, interruptAfter := false }
  | .function n => .function { n with interruptBefore := false, interruptAfter := false }
  | .subgraph n => .subgraph { n with interruptBefore := false, interruptAfter := false }

@[simp] theorem interruptBefore_clearFlags (n : GraphNode) :
    n.clearFlags.interruptBefore = false := by
  cases n <;> rfl

@[simp] theorem interruptAfter_clearFlags (n : GraphNode) :
    n.clearFlags.interruptAfter = false := by
  cases n <;> rfl

end GraphNode

/-- `await node(state)` of a subgraph: the mappers around the nested run. -/
def SubgraphNode.call (node : SubgraphNode) (state : PyDict) (moment : Moment) :
    Except Raised PyDict :=
  match node.inputMapper.elim (.ok state) (· state) with
  | .error e => .error e
  | .ok inputState =>
    match node.run inputState moment with
    | .error e => .error e
    | .ok result => node.outputMapper.elim (.ok result) (· result)

/-! ## The run of an agent node -/

/-- `state_dict.get(key, "") or ""` -/
def textOr (state : PyDict) (key : String) : Value :=
  match state.get? key with
  | some v => if v.truthy then v else .str ""
  | none => .str ""

/-- The input of an agent: what the mapper says, else the messages of the
state, else its `input`, else its last `output`. -/
def agentInput (node : AgentNode) (state : PyDict) : Except Raised Value :=
  match node.inputMapper with
  | some f => f state
  | none =>
    match state.get? "messages" with
    | some (.list (m :: ms)) => .ok (.list (m :: ms))
    | _ =>
      let inputText := textOr state "input"
      .ok (if inputText.truthy then inputText else textOr state "output")

/-- The messages that the guardrails see. -/
def guardMessages : Value → List Value
  | .list messages => messages
  | .str content => [.obj "Message" [("role", .str "user"), ("content", .str content)]]
  | _ => []

/-- The violations of all guardrails, in their order. -/
def violationsOf (checks : List (Except Raised (List String))) : Except Raised (List String) :=
  checks.foldr (fun check rest =>
    match check with
    | .error e => .error e
    | .ok found => rest.map (found ++ ·)) (.ok [])

def inputViolations (guardrails : List Guardrail) (messages : List Value) :
    Except Raised (List String) :=
  if messages.isEmpty then .ok []
  else violationsOf (guardrails.filterMap (fun g => g.validateInput.map (· messages)))

def outputViolations (guardrails : List Guardrail) (output : String) :
    Except Raised (List String) :=
  violationsOf (guardrails.filterMap (fun g => g.validateOutput.map (· output)))

/-- The update that stands for a rejected input or output. -/
def refusalFields (what : String) (violations : List String) : List (String × Value) :=
  [("output", .str ("Guardrail rejected " ++ what)),
    ("guardrails", .dict [("violations", .list (violations.map .str))])]

def outputKeyOf (nodeId : String) (node : AgentNode) : String :=
  match node.outputKey with
  | some key => if key ≠ "" then key else nodeId ++ "_output"
  | none => nodeId ++ "_output"

def schemaFields (schema : Option Schema) : List String := schema.elim [] (·.fields)

/-- The fields of an update that the engine itself takes from the result of an
agent: the layers 2 and 3, and the messages. -/
def mappedFields (schema : Option Schema) (nodeId : String) (node : AgentNode) (state : PyDict)
    (result : AgentResult) : List (String × Value) :=
  (if result.output ≠ "" then
    (if "output" ∈ schemaFields schema then [("output", .str result.output)] else []) ++
      [(outputKeyOf nodeId node, .str result.output)]
  else []) ++
  (match result.structuredOutput with
  | some dump =>
    if node.mapOutput then dump.entries.filter (fun e => e.1 ∈ schemaFields schema) else []
  | none => []) ++
  (if result.messages.isEmpty then []
  else if "messages" ∈ schema.elim state.keys (·.fields) then
    [("messages", .list result.messages)]
  else [])

/-- The name of the first guardrail. -/
def guardName (ctx : Ctx) : String :=
  match ctx.config.guardrails with
  | g :: _ => g.name
  | [] => "guardrail"

/-- Emit when there is a bus, and nothing during a replay. -/
def announce (ctx : Ctx) (body : EventBody) : Eng Unit :=
  if ctx.hasBus && !ctx.replayMode then emit body else pure ()

/-- Report a rejection by the guardrails, and refuse or raise. -/
def reject (ctx : Ctx) (what : String) (body : EventBody) (violations : List String) :
    Eng PyDict := do
  announce ctx body
  if ctx.config.guardrailsFail = "raise" then
    Logged.fail (.guardrailRejected what)
  else
    let fields := refusalFields what violations
    Logged.note (.built (fields.map (·.1)))
    pure (Dict.ofList fields)

/-- What the run of an agent puts on the bus. Without a bus it emits nothing. -/
def agentNotes (ctx : Ctx) (run : AgentRun) : List Note :=
  if ctx.hasBus then run.events.map (fun e => .emit ⟨.agent ctx.nodeId e.1, e.2⟩) else []

/-- The update from a result of an agent that passed the guardrails. -/
def mapResult (schema : Option Schema) (nodeId : String) (node : AgentNode) (state : PyDict)
    (result : AgentResult) : Eng PyDict :=
  match node.outputMapper with
  | some f => outside (f result)
  | none => do
    let fields := mappedFields schema nodeId node state result
    Logged.note (.built (fields.map (·.1)))
    pure (result.stateUpdates.setAll fields)

/-- `_execute_agent_node`: the update, and the restricted mode after it. -/
def executeAgentNode (schema : Option Schema) (nodeId : String) (node : AgentNode)
    (state : PyDict) (ctx : Ctx) : Eng (PyDict × Bool) := do
  let input ← outside (agentInput node state)
  let guardrails := ctx.config.guardrails
  let violations ← outside (inputViolations guardrails (guardMessages input))
  if violations ≠ [] then
    let update ← reject ctx "input"
      (.inputRejected nodeId node.agentName (guardName ctx) violations) violations
    pure (update, ctx.restrictedMode)
  else
    let run := node.run input ctx
    Logged.notes (agentNotes ctx run) (.ok ())
    let result ← outside run.result
    let post ← outside
      (if result.output ≠ "" then outputViolations guardrails result.output else .ok [])
    if post ≠ [] then
      let update ← reject ctx "output"
        (.outputRejected nodeId node.agentName (guardName ctx) post) post
      pure (update, run.restrictedMode)
    else
      let update ← mapResult schema nodeId node state result
      pure (update, run.restrictedMode)

/-! ## The run of any node -/

/-- An error of outside code gets the name of the node, unless it is one that
the engine lets pass. -/
def wrapError (nodeId : String) (node : GraphNode) : EngineError → EngineError
  | .raised e => if e.known then .raised e else .nodeFailed nodeId node.typeName e
  | e => e

/-- `_execute_node`: the update, and the restricted mode after it. -/
def executeNode (schema : Option Schema) (nodeId : String) (node : GraphNode) (state : PyDict)
    (ctx : Ctx) : Eng (PyDict × Bool) := do
  Logged.note (.ran nodeId)
  Logged.mapError (wrapError nodeId node)
    (match node with
    | .agent n => executeAgentNode schema nodeId n state ctx
    | .function n => do
      let update ← outside (n.func state ctx.moment)
      pure (update, ctx.restrictedMode)
    | .subgraph n => do
      let update ← outside (n.call state ctx.moment)
      pure (update, ctx.restrictedMode))

@[simp] theorem executeNode_clearFlags (schema : Option Schema) (nodeId : String)
    (node : GraphNode) (state : PyDict) (ctx : Ctx) :
    executeNode schema nodeId node.clearFlags state ctx =
      executeNode schema nodeId node state ctx := by
  cases node <;> rfl

/-! ## What the run of a node may write -/

/-- The events that tell nothing about the main path. -/
def QuietBody : EventBody → Prop
  | .agent .. | .inputRejected .. | .outputRejected .. | .handoffInitiated .. => True
  | _ => False

/-- A note of anything that is not a turn of the main path. -/
def Quiet : Note → Prop
  | .emit e => QuietBody e.body
  | .holds _ => False
  | .ran _ | .built _ => True

/-- A note from inside of a node: the node does not call another one. -/
def Inner (n : Note) : Prop := Quiet n ∧ n.ran? = none

/-- No node id was missing. -/
def InGraph (e : EngineError) : Prop := e.offGraph = false

variable {schema : Option Schema} {α : Type} {N : Note → Prop} {P : α → Prop}

theorem quiet_outside {r : Except Raised α} (h : ∀ a, r = .ok a → P a) :
    Logged.Meets N P InGraph (outside r) := by
  rcases r with e | a
  · exact Logged.meets_fail rfl
  · exact Logged.meets_pure (h a rfl)

theorem inner_agentNotes (ctx : Ctx) (run : AgentRun) : ∀ n ∈ agentNotes ctx run, Inner n := by
  intro n hn
  unfold agentNotes at hn
  split at hn
  · obtain ⟨e, -, rfl⟩ := List.mem_map.mp hn
    exact ⟨trivial, rfl⟩
  · cases hn

theorem inner_reject {ctx : Ctx} {what : String} {body : EventBody}
    {violations : List String} (h : QuietBody body) :
    Logged.Meets Inner (fun _ => True) InGraph (reject ctx what body violations) := by
  unfold reject
  refine Logged.meets_bind (P := fun _ => True) ?_ (fun _ _ _ => ?_)
  · unfold announce
    split
    · exact Logged.meets_note ⟨h, rfl⟩
    · exact Logged.meets_pure trivial
  · split
    · exact Logged.meets_fail rfl
    · refine Logged.meets_bind (Logged.meets_note ⟨trivial, rfl⟩) (fun _ _ _ => ?_)
      exact Logged.meets_pure trivial

theorem inner_mapResult {nodeId : String} {node : AgentNode} {state : PyDict}
    {result : AgentResult} :
    Logged.Meets Inner (fun _ => True) InGraph (mapResult schema nodeId node state result) := by
  unfold mapResult
  split
  · exact quiet_outside (fun _ _ => trivial)
  · refine Logged.meets_bind (Logged.meets_note ⟨trivial, rfl⟩) (fun _ _ _ => ?_)
    exact Logged.meets_pure trivial

theorem inner_executeAgentNode {nodeId : String} {node : AgentNode} {state : PyDict} {ctx : Ctx} :
    Logged.Meets Inner (fun _ => True) InGraph
      (executeAgentNode schema nodeId node state ctx) := by
  unfold executeAgentNode
  refine Logged.meets_bind (quiet_outside (P := fun _ => True) (fun _ _ => trivial))
    (fun input _ _ => ?_)
  refine Logged.meets_bind (quiet_outside (P := fun _ => True) (fun _ _ => trivial))
    (fun violations _ _ => ?_)
  split
  · refine Logged.meets_bind (inner_reject trivial) (fun _ _ _ => ?_)
    exact Logged.meets_pure trivial
  refine Logged.meets_bind (P := fun _ => True)
    (Logged.meets_notes (inner_agentNotes ctx _) (fun _ _ => trivial) ?_) (fun _ _ _ => ?_)
  · rintro e ⟨⟩
  refine Logged.meets_bind (quiet_outside (P := fun _ => True) (fun _ _ => trivial))
    (fun result _ _ => ?_)
  refine Logged.meets_bind (quiet_outside (P := fun _ => True) (fun _ _ => trivial))
    (fun post _ _ => ?_)
  split
  · refine Logged.meets_bind (inner_reject trivial) (fun _ _ _ => ?_)
    exact Logged.meets_pure trivial
  · refine Logged.meets_bind inner_mapResult (fun _ _ _ => ?_)
    exact Logged.meets_pure trivial

theorem inGraph_wrapError {nodeId : String} {node : GraphNode} {e : EngineError} (h : InGraph e) :
    InGraph (wrapError nodeId node e) := by
  unfold wrapError
  split
  · split
    · rfl
    · rfl
  · exact h

/-- The run of a node is noted, and then come notes from inside of it. -/
theorem log_executeNode (schema : Option Schema) (nodeId : String) (node : GraphNode)
    (state : PyDict) (ctx : Ctx) : ∃ inside, (∀ n ∈ inside, Inner n) ∧
      (executeNode schema nodeId node state ctx).log = .ran nodeId :: inside ∧
      ∀ e, (executeNode schema nodeId node state ctx).result = .error e → InGraph e := by
  have hinner : Logged.Meets Inner (fun _ => True) InGraph
      (Logged.mapError (wrapError nodeId node)
        (match node with
        | .agent n => executeAgentNode schema nodeId n state ctx
        | .function n => do
          let update ← outside (n.func state ctx.moment)
          pure (update, ctx.restrictedMode)
        | .subgraph n => do
          let update ← outside (n.call state ctx.moment)
          pure (update, ctx.restrictedMode))) := by
    refine Logged.meets_mapError (E := InGraph) ?_ (fun e he => inGraph_wrapError he)
    cases node with
    | agent n => exact inner_executeAgentNode
    | function n =>
      refine Logged.meets_bind (quiet_outside (P := fun _ => True) (fun _ _ => trivial))
        (fun _ _ _ => ?_)
      exact Logged.meets_pure trivial
    | subgraph n =>
      refine Logged.meets_bind (quiet_outside (P := fun _ => True) (fun _ _ => trivial))
        (fun _ _ _ => ?_)
      exact Logged.meets_pure trivial
  exact ⟨_, hinner.notes, rfl, hinner.failed⟩

/-- The run of a node writes no event of the main path, and none of its
errors is about a missing node. -/
theorem quiet_executeNode {nodeId : String} {node : GraphNode} {state : PyDict} {ctx : Ctx} :
    Logged.Meets Quiet (fun _ => True) InGraph (executeNode schema nodeId node state ctx) := by
  obtain ⟨inside, hinside, hlog, herror⟩ := log_executeNode schema nodeId node state ctx
  refine ⟨fun n hn => ?_, fun _ _ => trivial, herror⟩
  rw [hlog] at hn
  rcases List.mem_cons.mp hn with rfl | hn
  · trivial
  · exact (hinside n hn).1

theorem quiet_nodeLog {nodeId : String} {node : GraphNode} {state : PyDict} {ctx : Ctx}
    {log : List Note} {result : Except EngineError (PyDict × Bool)}
    (h : executeNode schema nodeId node state ctx = ⟨log, result⟩) : ∀ n ∈ log, Quiet n := by
  have hlog := congrArg Logged.log h
  rw [← show (executeNode schema nodeId node state ctx).log = log from hlog]
  exact quiet_executeNode.notes

/-- The run of a node calls that node and no other. -/
theorem ranNodes_executeNode (schema : Option Schema) (nodeId : String) (node : GraphNode)
    (state : PyDict) (ctx : Ctx) :
    ranNodes (executeNode schema nodeId node state ctx).log = [nodeId] := by
  obtain ⟨inside, hinside, hlog, -⟩ := log_executeNode schema nodeId node state ctx
  have hnone : ranNodes inside = [] := List.filterMap_eq_nil_iff.mpr (fun n hn => (hinside n hn).2)
  rw [hlog]
  exact congrArg (nodeId :: ·) hnone

end orchestra.nodes
