-- The agents as programs that ask what lies outside of them: the model, the
-- tools, the validators, the store and the aggregator. Here are `BaseAgent` of
-- `agent.py` and `GuardedAgent` of `guardrails.py`.
import Orchestra.Acl
import Orchestra.Agent
import Orchestra.Costs
import Orchestra.Lib.Program

open dicts logged programs orchestra.events orchestra.nodes orchestra.costs

namespace orchestra.agents

/-! ## What an agent asks -/

structure TokenUsage extends agent.TokenUsage where
  totalTokens : Nat

def TokenUsage.zero : TokenUsage := ⟨⟨0, 0, 0⟩, 0⟩

/-- The four lines that add one usage to another. -/
def TokenUsage.add (total usage : TokenUsage) : TokenUsage where
  inputTokens := total.inputTokens + usage.inputTokens
  outputTokens := total.outputTokens + usage.outputTokens
  totalTokens := total.totalTokens + usage.totalTokens
  estimatedCostUsd := total.estimatedCostUsd + usage.estimatedCostUsd

structure LLMResponse where
  content : Option String
  toolCalls : List agent.ToolCall
  usage : Option TokenUsage
  model : String

/-- `response.usage`, or zeros. -/
def LLMResponse.spent (response : LLMResponse) : TokenUsage := response.usage.getD .zero

/-- The arguments of `llm.complete`. Tools go by their names. -/
structure Request where
  messages : List Value
  model : Option String
  tools : Option (List String)
  temperature : Rat

/-- Which code asks the model: the loop of `BaseAgent.run`, the checker that
draws samples and judges them, or the search of a tree of thoughts. -/
inductive Site
  | loop
  | sampling
  | judging
  | generating
  | evaluating
deriving DecidableEq, Repr

inductive OnFail
  | block
  | fix
  | log
  | retry
  | exception
deriving DecidableEq, Repr

/-- A guardrail of a chain. -/
structure Validator where
  name : String
  onFail : OnFail

structure GuardrailViolation where
  guardrail : String
  message : String

structure GuardrailResult where
  passed : Bool
  output : Option String
  violation : Option String
  violations : List GuardrailViolation

/-- The questions. The requests of one question are sent side by side. An event
goes to the store first, which may fail, and is then announced to the other
callbacks of the bus, the aggregator's among them. -/
inductive Ask
  | totals
  | complete (site : Site) (requests : List Request)
  | append (body : EventBody)
  | announce (body : EventBody)
  | execute (toolName : String) (arguments : PyDict)
  | validate (guard : Validator) (text : String)
  | validateInput (guardrail : Guardrail) (messages : List Value)
  | validateOutput (guardrail : Guardrail) (output : String)
  | sentences (text : String)
  | scores (sentences samples : List String)

abbrev Answer : Ask → Type
  | .totals => Totals
  | .complete _ requests => Fin requests.length → Except Raised LLMResponse
  | .append _ => Except Raised Unit
  | .announce _ => Unit
  | .execute _ _ => Except Raised agent.ToolResult
  | .validate _ _ => Except Raised GuardrailResult
  | .validateInput _ _ | .validateOutput _ _ => Except Raised (List String)
  | .sentences _ => Except Raised (List String)
  | .scores _ _ => Except Raised (List Rat)

abbrev Code := Program Ask Answer Raised

abbrev Trace := List (Answered Ask Answer)

def ask (q : Ask) : Code (Answer q) := Program.query q

/-! ## The context -/

/-- What the code asks of the machine it runs on. `isDigit` is `c.isdigit()`. -/
structure Host extends acl.Host where
  isDigit : Char → Bool

/-- The context of an agent: its provider and its bus only by whether they are
there, and of its configuration what agents read. -/
structure Context extends Ctx where
  hasProvider : Bool
  budgetPolicy : Option BudgetPolicy
  costAggregator : Bool
  ucanToken : Option String
  host : Host

/-- `clone_for_branch`. The configuration and the token are handed on. -/
def Context.cloneForBranch (ctx : Context) (nodeId : String) (i : Nat) : Context :=
  { ctx with toCtx := ctx.toCtx.cloneForBranch nodeId i }

/-- `event_bus.emit` -/
def emit (ctx : Context) (body : EventBody) : Code Unit :=
  if ctx.hasBus then do
    let stored : Except Raised Unit ← ask (.append body)
    Program.ofExcept stored
    ask (.announce body)
  else pure ()

/-- Report what an agent does, unless this is a replay. -/
def emitLive (ctx : Context) (e : AgentEvent) : Code Unit :=
  if ctx.replayMode then pure () else emit ctx (.agent ctx.nodeId e)

/-- `await llm.complete(..)`, one call whose exception goes on. -/
def complete (site : Site) (request : Request) : Code LLMResponse := do
  let answers : Fin 1 → Except Raised LLMResponse ← ask (.complete site [request])
  Program.ofExcept (answers 0)

theorem complete_bind {α : Type} (site : Site) (request : Request) (f : LLMResponse → Code α) :
    complete site request >>= f =
      .ask (.complete site [request]) (fun answers => Program.ofExcept (answers (0 : Fin 1)) >>= f) :=
  rfl

/-- `asyncio.gather(.., return_exceptions=True)` of calls of the model. -/
def gather (site : Site) (requests : List Request) : Code (List (Except Raised LLMResponse)) := do
  let answers : Fin requests.length → Except Raised LLMResponse ← ask (.complete site requests)
  pure (List.ofFn answers)

/-! ## BaseAgent -/

structure BaseAgent where
  name : String
  model : Option String
  systemPrompt : String
  tools : List String
  acl : Option acl.ToolACL
  maxIterations : Nat
  temperature : Rat
  structured : Option (String → Option PyDict)

structure ToolCallRecord where
  toolCall : agent.ToolCall
  result : String
  error : Option String

/-- `isPartial` is the flag of a result that has run out of iterations. -/
structure AgentResult extends nodes.AgentResult where
  toolCallsMade : List ToolCallRecord
  tokenUsage : Option TokenUsage
  isPartial : Bool

/-- `self.acl.is_authorized(tool_call.name)`, with no token. -/
def BaseAgent.authorizes (a : BaseAgent) (ctx : Context) (toolName : String) :
    Except acl.AclError Bool :=
  acl.isAuthorized ctx.host.toHost (a.acl.getD .openAll) toolName none none none

/-- `_execute_tool`: replay, authorize, look up, run. An exception of the tool
becomes the error of its result. -/
def executeTool (a : BaseAgent) (ctx : Context) (call : agent.ToolCall) : Code agent.ToolResult :=
  match agent.replayed call ctx.replayEvents with
  | some result => pure result
  | none =>
    match a.authorizes ctx call.name with
    | .ok true =>
      if call.name ∈ a.tools then do
        let answer : Except Raised agent.ToolResult ← ask (.execute call.name call.arguments)
        match answer with
        | .ok result => pure result
        | .error e => pure ⟨"", some e.message⟩
      else pure ⟨"", some ("Tool '" ++ call.name ++ "' not found. Available: " ++
        listText a.tools)⟩
    | _ => do
      emit ctx (.agent ctx.nodeId (.securityViolation a.name "unauthorized_tool"
        (Dict.ofList [("tool_name", .str call.name)])))
      pure ⟨"", some ("Security Policy Violation: Agent '" ++ a.name ++
        "' is not authorized to use tool '" ++ call.name ++ "'.")⟩

/-- The tool calls of one response, each with its message and its record. -/
def runTools (a : BaseAgent) (ctx : Context) :
    List agent.ToolCall → Code (List Value × List ToolCallRecord)
  | [] => pure ([], [])
  | call :: rest => do
    let result ← executeTool a ctx call
    let content := if result.content ≠ "" then result.content else result.error.getD ""
    emitLive ctx (.toolCalled a.name call.name call.arguments (some result.content) result.error)
    let (messages, records) ← runTools a ctx rest
    pure (agent.message "tool" content
        [("name", .str call.name), ("tool_call_id", .str call.id)] :: messages,
      ⟨call, result.content, result.error⟩ :: records)

/-- The totals of the run so far, and zeros without an aggregator. -/
def currentTotals (ctx : Context) : Code Totals :=
  if ctx.costAggregator then ask .totals else pure 0

/-- The check before each call of the model. -/
def enforceBudget (ctx : Context) : Code Unit :=
  match ctx.budgetPolicy with
  | none => pure ()
  | some policy => do
    let totals ← currentTotals ctx
    Program.ofExcept ((policy.enforce totals.totalCostUsd totals.totalTokens).map (fun _ => ()))

/-- `response.model or self.model or "unknown"` -/
def modelName (asked : Option String) (response : LLMResponse) : String :=
  if response.model ≠ "" then response.model else
    match asked with
    | some model => if model ≠ "" then model else "unknown"
    | none => "unknown"

/-- The event of one response of the model. -/
def llmCalled (a : BaseAgent) (response : LLMResponse) : AgentEvent :=
  .llmCalled a.name (modelName a.model response) response.content (response.toolCalls.map (·.value))
    response.spent.inputTokens response.spent.outputTokens response.spent.estimatedCostUsd
    (if response.toolCalls.isEmpty then "stop" else "tool_calls")

/-- What the agent returns on a response without tool calls. -/
def finalResult (a : BaseAgent) (response : LLMResponse) (usage : TokenUsage)
    (records : List ToolCallRecord) : AgentResult :=
  let outputText := response.content.getD ""
  { agentName := a.name
    output := outputText
    structuredOutput :=
      match a.structured with
      | some parse => if outputText ≠ "" then parse outputText else none
      | none => none
    messages := [agent.message "assistant" outputText [("name", .str a.name)]]
    stateUpdates := .empty
    toolCallsMade := records
    tokenUsage := some usage
    isPartial := false }

/-- What the agent has when its iterations are over. -/
def partialResult (a : BaseAgent) (messages : List Value) (usage : TokenUsage)
    (records : List ToolCallRecord) : AgentResult where
  agentName := a.name
  output := ""
  structuredOutput := none
  messages := messages.filter (fun m => m.field "role" = some (.str "assistant"))
  stateUpdates := .empty
  toolCallsMade := records
  tokenUsage := some usage
  isPartial := true

def maxIterationsError (a : BaseAgent) : Raised :=
  ⟨"MaxIterationsError", "Agent '" ++ a.name ++ "' exceeded max_iterations (" ++
    toString a.maxIterations ++
    ").\n  Fix: Increase max_iterations or check why the agent keeps calling tools.", true⟩

/-- `for _iteration in range(self.max_iterations)`, with `left` of them left. -/
def think (a : BaseAgent) (ctx : Context) (emitPartialOnMaxIterations : Bool) :
    Nat → List Value → TokenUsage → List ToolCallRecord → Code AgentResult
  | 0, messages, usage, records =>
    if emitPartialOnMaxIterations then pure (partialResult a messages usage records)
    else Program.fail (maxIterationsError a)
  | left + 1, messages, usage, records => do
    enforceBudget ctx
    let response ← complete .loop ⟨messages, a.model, if a.tools.isEmpty then none else a.tools,
      a.temperature⟩
    emitLive ctx (llmCalled a response)
    if response.toolCalls.isEmpty then
      pure (finalResult a response (usage.add response.spent) records)
    else
      let asked := agent.message "assistant" (response.content.getD "")
        [("tool_calls", .list (response.toolCalls.map (·.value)))]
      let (answers, made) ← runTools a ctx response.toolCalls
      think a ctx emitPartialOnMaxIterations left (messages ++ asked :: answers)
        (usage.add response.spent) (records ++ made)

/-- The messages with which an agent starts. -/
def startMessages (systemPrompt : String) (input : Value) : List Value :=
  agent.message "system" systemPrompt [] ::
    match input with
    | .str s => if s ≠ "" then [agent.message "user" s []] else []
    | .list messages => messages
    | _ => []

def noProviderError (name : String) : Raised :=
  ⟨"ProviderError", "Agent '" ++ name ++ "' has no LLM provider.\n  Fix: Pass a provider when " ++
    "running the workflow, e.g.:\n  compiled.run(state, provider=HttpProvider())", true⟩

/-- `BaseAgent.run` -/
def BaseAgent.run (a : BaseAgent) (input : Value) (ctx : Context)
    (emitPartialOnMaxIterations : Bool) : Code AgentResult :=
  if ctx.hasProvider then
    think a ctx emitPartialOnMaxIterations a.maxIterations (startMessages a.systemPrompt input)
      .zero []
  else Program.fail (noProviderError a.name)

/-! ## GuardedAgent -/

/-- `GuardrailChain.run`, from the text and the violations so far. -/
def runChain : List Validator → String → List GuardrailViolation → Code GuardrailResult
  | [], text, violations => pure ⟨true, some text, none, violations⟩
  | g :: rest, text, violations => do
    let answer : Except Raised GuardrailResult ← ask (.validate g text)
    let result ← Program.ofExcept answer
    if result.passed then runChain rest (result.output.getD text) violations
    else
      let violations := violations ++ result.violations
      match g.onFail with
      | .block | .retry => pure ⟨false, some text, result.violation, violations⟩
      | .exception => Program.fail ⟨"GuardrailError",
          "Guardrail '" ++ g.name ++ "' failed: " ++ result.violation.getD "None", false⟩
      | .fix => runChain rest (result.output.getD text) violations
      | .log => runChain rest text violations

/-- `_get_chain_blocking_action`: what the first guardrail does that does more
than log. -/
def blockingAction (chain : List Validator) : OnFail :=
  match chain.find? (fun g => g.onFail ≠ .log) with
  | some g => g.onFail
  | none => .block

structure GuardedAgent extends BaseAgent where
  inputGuardrails : Option (List Validator)
  outputGuardrails : Option (List Validator)
  maxRetries : Int

/-- `type(v).__name__` -/
def typeName : Value → String
  | .none => "NoneType"
  | .bool _ => "bool"
  | .int _ => "int"
  | .str _ => "str"
  | .list _ => "list"
  | .dict _ => "dict"
  | .obj cls _ => cls

/-- An attribute that every message has, such as `msg.content`. -/
def getattr (v : Value) (key : String) : Except Raised Value :=
  let missing := Except.error ⟨"AttributeError",
    "'" ++ typeName v ++ "' object has no attribute '" ++ key ++ "'", false⟩
  match v with
  | .obj _ fields => (fields.lookup key).elim missing .ok
  | _ => missing

/-- `_extract_input_text` -/
def extractInputText (input : Value) : Except Raised String :=
  match input with
  | .str s => .ok s
  | v => do
    let messages ← v.iterate
    let contents ← messages.mapM (getattr · "content")
    .ok (" ".intercalate ((contents.filter (·.truthy)).map (·.text)))

/-- A result that stands for a blocked input or output. -/
def blockedResult (a : BaseAgent) (what : String) (violation : Option String) : AgentResult where
  agentName := a.name
  output := what ++ " blocked by guardrail: " ++ violation.getD "None"
  structuredOutput := none
  messages := []
  stateUpdates := .empty
  toolCallsMade := []
  tokenUsage := none
  isPartial := false

/-- The result with the output that its guardrails left. -/
def AgentResult.withOutput (result : AgentResult) (output : Option String) : AgentResult :=
  match output with
  | some text =>
    if text ≠ result.output then
      { result with output := text, stateUpdates := .empty, isPartial := false }
    else result
  | none => result

/-- `for attempt in range(1 + self.max_retries)`, with `left` attempts left. -/
def attempts (g : GuardedAgent) (ctx : Context) (input : Value) : Nat → Code AgentResult
  | 0 => Program.fail ⟨"UnboundLocalError",
      "cannot access local variable 'result' where it is not associated with a value", false⟩
  | left + 1 => do
    let result ← g.toBaseAgent.run input ctx false
    match g.outputGuardrails with
    | none => pure result
    | some chain =>
      let verdict ← runChain chain result.output []
      if verdict.passed then pure (result.withOutput verdict.output)
      else if blockingAction chain = .retry ∧ left ≠ 0 then attempts g ctx input left
      else pure (blockedResult g.toBaseAgent "Output" verdict.violation)

/-- `GuardedAgent.run` -/
def GuardedAgent.run (g : GuardedAgent) (input : Value) (ctx : Context) : Code AgentResult :=
  match g.inputGuardrails with
  | none => attempts g ctx input (1 + g.maxRetries).toNat
  | some chain => do
    let text ← Program.ofExcept (extractInputText input)
    let verdict ← runChain chain text []
    if verdict.passed then
      let input := match verdict.output, input with
        | some text, .str _ => .str text
        | _, input => input
      attempts g ctx input (1 + g.maxRetries).toNat
    else pure (blockedResult g.toBaseAgent "Input" verdict.violation)

/-! ## Against one oracle -/

/-- What answers an agent when each question has one answer: a provider, tools,
and a store that takes every event. -/
def oracle (provider : List Value → Except Raised LLMResponse) (toolbox : List agent.Tool)
    (ctx : Ctx) : (q : Ask) → Answer q
  | .totals => (0 : Totals)
  | .complete _ requests => fun i => provider (requests.get i).messages
  | .append _ => .ok ()
  | .announce _ => ()
  | .execute toolName arguments =>
    match toolbox.find? (fun t => t.name = toolName) with
    | some tool => tool.execute arguments ctx
    | none => .ok ⟨"", none⟩
  | .validate _ text => .ok ⟨true, some text, none, []⟩
  | .validateInput guardrail messages => guardrail.validateInput.elim (.ok []) (· messages)
  | .validateOutput guardrail output => guardrail.validateOutput.elim (.ok []) (· output)
  | .sentences _ => .ok []
  | .scores _ _ => .ok []

/-- What the bus announces of an agent. -/
def heard : Answered Ask Answer → Option (AgentEvent × Bool)
  | ⟨.announce (.agent _ e), _⟩ => some (e, false)
  | _ => none

/-- A response without the total of its tokens. -/
def LLMResponse.plain (response : LLMResponse) : agent.LLMResponse :=
  ⟨response.content, response.toolCalls, response.usage.map (·.toTokenUsage), response.model⟩

/-- The agent with its tools at hand. -/
def BaseAgent.plain (a : BaseAgent) (ctx : Context) (toolbox : List agent.Tool) :
    agent.BaseAgent where
  name := a.name
  model := a.model
  systemPrompt := a.systemPrompt
  tools := toolbox
  acl := some (fun toolName => a.authorizes ctx toolName = .ok true)
  maxIterations := a.maxIterations
  structured := a.structured

variable {a : BaseAgent} {ctx : Context} {provider : List Value → Except Raised LLMResponse}
  {toolbox : List agent.Tool}

theorem observe_emit (hbus : ctx.hasBus = true) (e : AgentEvent) :
    (emit ctx (.agent ctx.nodeId e)).observe (oracle provider toolbox ctx.toCtx) heard =
      agent.report e := by
  unfold emit
  rw [if_pos hbus]
  rfl

theorem observe_emitLive (hbus : ctx.hasBus = true) (e : AgentEvent) :
    (emitLive ctx e).observe (oracle provider toolbox ctx.toCtx) heard =
      agent.reportLive ctx.toCtx e := by
  unfold emitLive agent.reportLive
  split
  · rfl
  · exact observe_emit hbus e

theorem observe_executeTool (hbus : ctx.hasBus = true) (htools : toolbox.map (·.name) = a.tools)
    (call : agent.ToolCall) :
    (executeTool a ctx call).observe (oracle provider toolbox ctx.toCtx) heard =
      agent.executeTool (a.plain ctx toolbox) ctx.toCtx call := by
  unfold executeTool agent.executeTool
  rcases agent.replayed call ctx.replayEvents with _ | result
  swap
  · rfl
  by_cases hacl : a.authorizes ctx call.name = .ok true
  · have hplain : (a.plain ctx toolbox).acl.elim true (· call.name) = true := by
      simp [BaseAgent.plain, hacl]
    simp only [hacl, hplain, if_true]
    rcases hfind : toolbox.find? (fun t => t.name = call.name) with _ | tool
    · have hno : call.name ∉ a.tools := by
        rw [← htools]
        simpa using hfind
      simp only [hno, if_false, BaseAgent.plain, hfind, htools]
      rfl
    · have hyes : call.name ∈ a.tools := by
        have hname : tool.name = call.name := by simpa using List.find?_some hfind
        rw [← htools, ← hname]
        exact List.mem_map_of_mem (List.mem_of_find?_eq_some hfind)
      simp only [hyes, if_true, BaseAgent.plain, hfind]
      have hanswer : oracle provider toolbox ctx.toCtx (.execute call.name call.arguments) =
          tool.execute call.arguments ctx.toCtx := by
        simp only [oracle, hfind]
      unfold ask
      simp only [Program.query_bind, Program.observe, hanswer, heard, Option.toList_none,
        List.nil_append]
      rcases tool.execute call.arguments ctx.toCtx with e | result
      · rfl
      · rfl
  · have hplain : (a.plain ctx toolbox).acl.elim true (· call.name) = false := by
      simp [BaseAgent.plain, hacl]
    simp only [hplain, Bool.false_eq_true, if_false]
    rw [Program.observe_bind, observe_emit hbus]
    rfl

theorem observe_runTools (hbus : ctx.hasBus = true) (htools : toolbox.map (·.name) = a.tools)
    (calls : List agent.ToolCall) :
    (·.1) <$> (runTools a ctx calls).observe (oracle provider toolbox ctx.toCtx) heard =
      agent.runTools (a.plain ctx toolbox) ctx.toCtx calls := by
  induction calls with
  | nil => rfl
  | cons call rest ih =>
    unfold runTools agent.runTools
    simp only [Program.observe_bind, observe_executeTool hbus htools, observe_emitLive hbus,
      Program.observe_pure, map_bind, map_pure, ← ih, bind_map_left]
    rfl

theorem llmCalled_plain (ctx : Context) (toolbox : List agent.Tool) (response : LLMResponse) :
    llmCalled a response = agent.llmCalled (a.plain ctx toolbox) response.plain := by
  unfold llmCalled agent.llmCalled LLMResponse.spent LLMResponse.plain
  rcases response.usage with _ | usage
  · rfl
  · rfl

theorem observe_think (hbus : ctx.hasBus = true) (htools : toolbox.map (·.name) = a.tools)
    (hpolicy : ctx.budgetPolicy = none) (left : Nat) (messages : List Value) (usage : TokenUsage)
    (records : List ToolCallRecord) :
    (·.toAgentResult) <$> (think a ctx false left messages usage records).observe
        (oracle provider toolbox ctx.toCtx) heard =
      agent.think (a.plain ctx toolbox) (fun messages => (provider messages).map (·.plain))
        ctx.toCtx left messages := by
  induction left generalizing messages usage records with
  | zero => rfl
  | succ left ih =>
    unfold think agent.think
    have hbudget : enforceBudget ctx = pure () := by simp only [enforceBudget, hpolicy]
    have hcall : ∀ request, (complete .loop request).observe (oracle provider toolbox ctx.toCtx)
        heard = Logged.ofExcept (provider request.messages) := fun _ => rfl
    simp only [hbudget, Program.pure_bind', Program.observe_bind, hcall, map_bind]
    rcases provider messages with e | response
    · rfl
    show (pure response >>= _ : agent.Report _) = (pure response.plain >>= _ : agent.Report _)
    rw [pure_bind, pure_bind, observe_emitLive hbus, llmCalled_plain ctx toolbox]
    refine bind_congr (fun _ => ?_)
    by_cases hcalls : response.toolCalls.isEmpty = true
    · have hplain : response.plain.toolCalls.isEmpty = true := hcalls
      rw [if_pos hcalls, if_pos hplain]
      rfl
    · have hplain : ¬ response.plain.toolCalls.isEmpty = true := hcalls
      rw [if_neg hcalls, if_neg hplain]
      have htools' : (·.1) <$> (runTools a ctx response.toolCalls).observe
          (oracle provider toolbox ctx.toCtx) heard =
          agent.runTools (a.plain ctx toolbox) ctx.toCtx response.toolCalls :=
        observe_runTools hbus htools response.toolCalls
      simp only [Program.observe_bind, map_bind, ih]
      rw [show response.plain.toolCalls = response.toolCalls from rfl, ← htools', bind_map_left]
      rfl

/-- Without a budget, and where each question has one answer, the program is the
agent of `Agent.lean`: it announces the same and returns the same. -/
theorem run_refines (hbus : ctx.hasBus = true) (htools : toolbox.map (·.name) = a.tools)
    (hpolicy : ctx.budgetPolicy = none) (hprovider : ctx.hasProvider = true) (input : Value) :
    (a.plain ctx toolbox).run (some (fun messages => (provider messages).map (·.plain))) input
        ctx.toCtx =
      let x := (·.toAgentResult) <$> (a.run input ctx false).observe
        (oracle provider toolbox ctx.toCtx) heard
      ⟨x.log, ctx.restrictedMode, x.result⟩ := by
  unfold BaseAgent.run agent.BaseAgent.run
  rw [if_pos hprovider]
  simp only [observe_think hbus htools hpolicy]
  rfl

end orchestra.agents
