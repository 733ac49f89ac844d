-- A run with guardrails and a budget policy, over all its segments: how an agent
-- node is run, what the context of a segment has of the policies, and what they
-- should do for each agent node and each call of a model.
import Orchestra.Accounting
import Orchestra.Turns

open dicts programs machine orchestra.state orchestra.events orchestra.costs
open orchestra.nodes hiding AgentResult

namespace orchestra.policies

open orchestra.agents orchestra.questions orchestra.metering
open Program

/-! ## The agent node -/

/-- A node with an agent, and the mappers around it. -/
structure AgentNode where
  agent : Agent
  outputKey : Option String
  mapOutput : Bool
  inputMapper : Option (PyDict → Except Raised Value)
  outputMapper : Option (nodes.AgentResult → Except Raised PyDict)

/-- The same node for an agent that runs as `run` says. -/
def AgentNode.plain (node : AgentNode) (run : Value → Ctx → AgentRun) : nodes.AgentNode where
  agentName := node.agent.toBase.name
  run
  outputKey := node.outputKey
  mapOutput := node.mapOutput
  inputMapper := node.inputMapper
  outputMapper := node.outputMapper
  interruptBefore := false
  interruptAfter := false

/-- A call of an agent node by the engine. -/
structure NodeCall where
  schema : Option Schema
  nodeId : String
  node : AgentNode
  state : PyDict
  ctx : Context

/-- The mappers of the node do not ask how its agent runs. -/
def NodeCall.mappers (call : NodeCall) : nodes.AgentNode :=
  call.node.plain (fun _ ctx => ⟨[], ctx.restrictedMode, .error ⟨"", "", false⟩⟩)

def NodeCall.input (call : NodeCall) : Except Raised Value := agentInput call.mappers call.state

/-- What some guardrails find, one after the other. -/
def askAll : List (Code (List String)) → Code (List String)
  | [] => pure []
  | check :: rest => do
    let found ← check
    let more ← askAll rest
    pure (found ++ more)

def validateInput (messages : List Value) (g : Guardrail) : Code (List String) := do
  let answer : Except Raised (List String) ← ask (.validateInput g messages)
  Program.ofExcept answer

def validateOutput (output : String) (g : Guardrail) : Code (List String) := do
  let answer : Except Raised (List String) ← ask (.validateOutput g output)
  Program.ofExcept answer

def inputViolations (guardrails : List Guardrail) (messages : List Value) : Code (List String) :=
  if messages.isEmpty then pure []
  else askAll ((guardrails.filter (·.validateInput.isSome)).map (validateInput messages))

def outputViolations (guardrails : List Guardrail) (output : String) : Code (List String) :=
  if output = "" then pure []
  else askAll ((guardrails.filter (·.validateOutput.isSome)).map (validateOutput output))

/-- Report a rejection, unless this is a replay. An error of the store is passed
over. -/
def announce (ctx : Context) (body : EventBody) : Code Unit :=
  if ctx.hasBus && !ctx.replayMode then do
    let stored : Except Raised Unit ← ask (.append body)
    match stored with
    | .ok () => ask (.announce body)
    | .error _ => pure ()
  else pure ()

/-- The update of a node whose input or output was rejected. -/
def refusal (what : String) (violations : List String) : PyDict :=
  Dict.ofList (refusalFields what violations)

/-- Report a rejection by the guardrails, and refuse or raise. -/
def reject (ctx : Context) (what : String) (body : EventBody) (violations : List String) :
    Code PyDict := do
  announce ctx body
  if ctx.config.guardrailsFail = "raise" then
    Program.fail ⟨"AgentError", "Guardrail rejected " ++ what, true⟩
  else pure (refusal what violations)

/-- The update from a result that passed the guardrails. -/
def mapResult (call : NodeCall) (result : AgentResult) : Except Raised PyDict :=
  match call.node.outputMapper with
  | some f => f result.toAgentResult
  | none => .ok (result.stateUpdates.setAll
      (mappedFields call.schema call.nodeId call.mappers call.state result.toAgentResult))

/-- The end of `_execute_agent_node`: check the output of the agent and map it. -/
def finishNode (call : NodeCall) (result : AgentResult) : Code PyDict := do
  let violations ← outputViolations call.ctx.config.guardrails result.output
  if violations ≠ [] then
    reject call.ctx "output" (.outputRejected call.nodeId call.node.agent.toBase.name
      (guardName call.ctx.toCtx) violations) violations
  else Program.ofExcept (mapResult call result)

/-- `_execute_agent_node` -/
def executeAgentNode (call : NodeCall) : Code PyDict := do
  let input ← Program.ofExcept call.input
  let violations ← inputViolations call.ctx.config.guardrails (guardMessages input)
  if violations ≠ [] then
    reject call.ctx "input" (.inputRejected call.nodeId call.node.agent.toBase.name
      (guardName call.ctx.toCtx) violations) violations
  else
    let result ← call.node.agent.run input call.ctx
    finishNode call result

/-! ## The segments of a run -/

/-- A run over all its segments: the context that its caller gave to `run`, how
often it was resumed, and the segment under way. Only the first segment has an
aggregator, which keeps its totals. -/
structure Course where
  given : Context
  resumes : Nat
  segment : Segment

/-- The context of the first segment: the one that was given, with a bus and an
aggregator. -/
def Course.first (c : Course) : Context :=
  { c.given with hasBus := true, costAggregator := true }

/-- The bus of a later segment has no aggregator. -/
def Course.serve (c : Course) (e : Answered Ask Answer) : Course :=
  if c.resumes = 0 then { c with segment := c.segment.serve e } else c

/-- What a resume has: the checkpoint of the store, a provider or none, and the
machine that it runs on. -/
structure Resumption where
  checkpoint : runs.Checkpoint
  hasProvider : Bool
  host : Host

/-- The context that `resume` builds. -/
def Resumption.context (r : Resumption) : Context where
  toCtx := { runs.freshCtx r.checkpoint.runId with
    hasBus := true
    loopCounters := r.checkpoint.loopCounters
    nodeExecutionOrder := r.checkpoint.nodeExecutionOrder }
  hasProvider := r.hasProvider
  budgetPolicy := none
  costAggregator := false
  ucanToken := none
  host := r.host

/-- It is the context of the loop that a resume starts. -/
theorem Resumption.context_eq (r : Resumption) (G : compiled.CompiledGraph)
    (state : compiled.WorkflowState G.schema) :
    (runs.resumeStart G r.checkpoint state).ctx = r.context.toCtx := rfl

abbrev NodeTask := Task NodeCall Ask Answer Raised PyDict

abbrev Segments := Pool Course NodeCall Ask Answer Raised PyDict

/-- A run of a graph, with any number of resumes. The engine may call any agent
node at any time, one after the other or side by side, and the run can be
resumed when no node is at work. -/
def courseSystem : System Course Resumption NodeCall Ask Answer Raised PyDict where
  init c := c.resumes = 0 ∧ c.segment.ctx = c.first ∧
    ∃ registry, c.segment.aggregator = .new registry
  code := executeAgentNode
  opens c call := Handed c.segment.ctx call.ctx
  serves c e c' := c.segment.Truthful e ∧ c' = c.serve e
  turns P r c' := (∀ task ∈ P.tasks, task.code.ended = true) ∧
    r.checkpoint.runId = P.shared.given.runId ∧
    c' = { P.shared with
      resumes := P.shared.resumes + 1
      segment := { P.shared.segment with ctx := r.context } }

/-! ## The contexts that the engine hands out -/

section Engine

open orchestra.compiled orchestra.turns

variable {G : CompiledGraph} {env : Env} {segment : Context} {L L' L₀ : Loop G.schema} {c : Ctx}

/-- The context has what the engine never changes in a segment. -/
structure Kin (segment : Context) (c : Ctx) : Prop where
  runId : c.runId = segment.runId
  config : c.config = segment.config
  replayEvents : c.replayEvents = segment.replayEvents
  hasBus : c.hasBus = segment.hasBus

theorem Kin.handed (h : Kin segment c) : Handed segment { segment with toCtx := c } := by
  obtain ⟨runId, nodeId, turnNumber, config, mode, replayEvents, hasBus, counters, order, moment⟩ := c
  obtain ⟨rfl, rfl, rfl, rfl⟩ := h
  exact .turn nodeId turnNumber mode counters order moment

theorem Kin.enter (h : Kin segment L.ctx) : Kin segment L.enter :=
  ⟨h.runId, h.config, h.replayEvents, h.hasBus⟩

theorem Kin.next (h : Kin segment L.ctx) {log : List Note}
    (hturn : turn G env L = ⟨log, .ok (.next L')⟩) : Kin segment L'.ctx := by
  obtain ⟨node, ctx, r, -, -, -, hwalk, rfl⟩ := turn_next hturn
  obtain ⟨mode, rfl⟩ := walk_left hwalk
  exact ⟨h.runId, h.config, h.replayEvents, h.hasBus⟩

theorem Kin.run (hstart : L₀.ctx = segment.toCtx) {logs : List (List Note)}
    (hrun : Run (loopMachine G env L₀) L₀ logs L) : Kin segment L.ctx := by
  refine hrun.invariant (I := fun L => Kin segment L.ctx) (fun K l K' hkin hstep => ?_) ?_
  · exact hkin.next hstep.2.2
  · rw [hstart]
    exact ⟨rfl, rfl, rfl, rfl⟩

/-- In every run of the loop of a segment the node of each turn gets a context of the
segment. -/
theorem handed_turn (hstart : L₀.ctx = segment.toCtx) {logs : List (List Note)}
    (hrun : Run (loopMachine G env L₀) L₀ logs L) :
    Handed segment { segment with toCtx := L.enter } :=
  (Kin.run hstart hrun).enter.handed

/-- So does each branch of a fan-out behind that node. -/
theorem handed_branch (hstart : L₀.ctx = segment.toCtx) {logs : List (List Note)}
    (hrun : Run (loopMachine G env L₀) L₀ logs L) {node : GraphNode} {log : List Note}
    {r : Resolution G.schema} (hwalk : walk G env L node = ⟨log, .ok (c, r)⟩) (nodeId : String)
    (i : Nat) : Handed segment { segment with toCtx := c.cloneForBranch nodeId i } := by
  obtain ⟨mode, rfl⟩ := walk_left hwalk
  have h := Kin.run hstart hrun
  have hwalked : Kin segment { L.enter with
      restrictedMode := mode
      nodeExecutionOrder := L.ctx.nodeExecutionOrder ++ [L.current.text] } :=
    ⟨h.runId, h.config, h.replayEvents, h.hasBus⟩
  exact hwalked.handed.branch nodeId i

end Engine

/-! ## What the guardrails should do -/

/-- A question that the agent of a node asks, and not the engine for it. -/
def OfAgent : Ask → Prop
  | .validateInput _ _ => False
  | .validateOutput _ _ => False
  | .append body => ∃ nodeId e, body = .agent nodeId e
  | .announce body => ∃ nodeId e, body = .agent nodeId e
  | _ => True

/-- All guardrails that look at inputs were asked about the messages, and had
nothing against them. Where there are no messages there is nothing to ask. -/
def InputPassed (guardrails : List Guardrail) (messages : List Value) (trace : Trace) : Prop :=
  messages ≠ [] → ∀ g ∈ guardrails, g.validateInput.isSome = true →
    (⟨.validateInput g messages, Except.ok []⟩ : Answered Ask Answer) ∈ trace

def OutputPassed (guardrails : List Guardrail) (output : String) (trace : Trace) : Prop :=
  output ≠ "" → ∀ g ∈ guardrails, g.validateOutput.isSome = true →
    (⟨.validateOutput g output, Except.ok []⟩ : Answered Ask Answer) ∈ trace

/-- The agent gave this result for an input that had passed, and it passed too. -/
structure Vetted (guardrails : List Guardrail) (task : NodeTask) (input : Value)
    (result : AgentResult) : Prop where
  given : task.job.input = .ok input
  before : InputPassed guardrails (guardMessages input) task.trace
  ran : ∃ trace, trace <:+: task.trace ∧
    Path (task.job.node.agent.run input task.job.ctx) trace (.done (.ok result))
  after : OutputPassed guardrails result.output task.trace

/-- The guardrails check the node: its agent asks nothing until its input has
passed, and the update is a refusal or comes from a result that has passed. -/
structure Checked (guardrails : List Guardrail) (task : NodeTask) : Prop where
  input : ∀ q next, task.code = .ask q next → OfAgent q → ∃ input, task.job.input = .ok input ∧
    InputPassed guardrails (guardMessages input) task.trace
  output : ∀ update, task.code = .done (.ok update) →
    (∃ what violations, violations ≠ [] ∧ update = refusal what violations) ∨
      ∃ input result, Vetted guardrails task input result ∧ mapResult task.job result = .ok update

/-! ## What the budget policy should do -/

/-- The price of a charge, as the aggregator counts it. -/
def priced (registry : ModelCostRegistry) (charge : Charge) : Totals where
  totalCostUsd :=
    registry.calculateCost charge.model charge.usage.inputTokens charge.usage.outputTokens
  totalTokens := charge.tokens

/-- What the completions of an answer cost. -/
def costAt (registry : ModelCostRegistry) (e : Answered Ask Answer) : Totals :=
  ((chargedAt e).map (priced registry)).sum

/-- What all completions of the run have cost so far, over all its segments. -/
def spent (P : Segments) : Totals := P.tally (costAt P.shared.segment.aggregator.registry)

/-- A move makes no call of a model once the limit of the policy is reached. -/
def WithinBudget (P : Segments) (move : Move Resumption NodeCall Ask Answer) (P' : Segments) :
    Prop :=
  ∀ policy ∈ P.shared.given.budgetPolicy, ∀ site requests,
    P.Poses courseSystem move (.complete site requests) →
      policy.hardHit (spent P').totalCostUsd (spent P').totalTokens = false

/-- The policies of the run are upheld where it stands: each agent node called so far is
checked by the guardrails, and no move of the machine overdraws the budget. -/
structure Upheld (M : Machine Segments (Move Resumption NodeCall Ask Answer)) (P : Segments) :
    Prop where
  checked : ∀ task ∈ P.tasks, Checked P.shared.given.config.guardrails task
  within : ∀ move P', M.step P move P' → WithinBudget P move P'

/-! ## When they do -/

/-- A move that gets past the policies: an agent node starts after a resume, or
in a replay, which announces nothing; a model is called from outside of the
loop of `BaseAgent.run`; the event of a call is kept out of the store; or the
budget is checked while the event of a call is on its way. -/
inductive Bypasses (P : Segments) : Move Resumption NodeCall Ask Answer → Prop
  | resumed {call : NodeCall} (later : 0 < P.shared.resumes) : Bypasses P (.start call)
  | replayed {call : NodeCall} (replay : P.shared.given.replayEvents ≠ []) :
    Bypasses P (.start call)
  | unchecked {move : Move Resumption NodeCall Ask Answer} {site : Site} {requests : List Request}
    (calls : P.Poses courseSystem move (.complete site requests)) (outside : site ≠ .loop) :
    Bypasses P move
  | refused {i : Nat} {body : EventBody} {e : Raised} (call : (carried? body).isSome) :
    Bypasses P (.answer i ⟨.append body, .error e⟩)
  | overtaken {i : Nat} {totals : Totals} {task : NodeTask} {charge : Charge} {q : Ask}
    {next : Answer q → Code PyDict} (there : task ∈ P.tasks) (asks : task.code = .ask q next)
    (reports : Reports charge q) : Bypasses P (.answer i ⟨.totals, totals⟩)

def Abides (P : Segments) (move : Move Resumption NodeCall Ask Answer) : Prop := ¬ Bypasses P move

end orchestra.policies
