-- The default agent of `agent.py`: it asks the model, runs the tools that the
-- model asks for, and reports each of these on the bus. It takes no number
-- from the bus for what it reports.
import Orchestra.Nodes

open dicts logged orchestra.events orchestra.nodes

namespace orchestra.agent

/-! ## The model and the tools -/

structure ToolCall where
  id : String
  name : String
  arguments : PyDict

structure TokenUsage where
  inputTokens : Nat
  outputTokens : Nat
  estimatedCostUsd : Rat

structure LLMResponse where
  content : Option String
  toolCalls : List ToolCall
  usage : Option TokenUsage
  model : String

structure ToolResult where
  content : String
  error : Option String

structure Tool where
  name : String
  execute : PyDict → Ctx → Except Raised ToolResult

/-- `llm.complete`, on the messages so far. -/
abbrev Provider := List Value → Except Raised LLMResponse

/-- `acl` says which tools the agent may use. Without one it may use all. -/
structure BaseAgent where
  name : String
  model : Option String
  systemPrompt : String
  tools : List Tool
  acl : Option (String → Bool)
  maxIterations : Nat
  structured : Option (String → Option PyDict)

/-- A `Message` of a role, with its other fields. -/
def message (role content : String) (fields : List (String × Value)) : Value :=
  .obj "Message" ([("role", .str role), ("content", .str content)] ++ fields)

/-- The run of an agent: what it reports, and whether the report takes a
number from the bus. -/
abbrev Report := Logged (AgentEvent × Bool) Raised

/-- Report without a number: the event keeps the default sequence. -/
def report (e : AgentEvent) : Report Unit := Logged.note (e, false)

/-! ## Tools -/

/-- The recorded result of the first call of the same tool with equal
arguments. -/
def replayed (call : ToolCall) : List EventBody → Option ToolResult
  | [] => none
  | .agent _ (.toolCalled _ toolName arguments result error) :: rest =>
    if toolName = call.name ∧ (Value.ofDict arguments).equals (.ofDict call.arguments) then
      some ⟨result.getD "", error⟩
    else replayed call rest
  | _ :: rest => replayed call rest

/-- `_execute_tool`: replay, authorize, look up, run. An exception of the tool
becomes the error of its result. -/
def executeTool (a : BaseAgent) (ctx : Ctx) (call : ToolCall) : Report ToolResult :=
  match replayed call ctx.replayEvents with
  | some result => pure result
  | none =>
    if a.acl.elim true (· call.name) then
      match a.tools.find? (fun t => t.name = call.name) with
      | none => pure ⟨"", some ("Tool '" ++ call.name ++ "' not found. Available: " ++
          listText (a.tools.map (·.name)))⟩
      | some tool =>
        match tool.execute call.arguments ctx with
        | .ok result => pure result
        | .error e => pure ⟨"", some e.message⟩
    else do
      report (.securityViolation a.name "unauthorized_tool"
        (Dict.ofList [("tool_name", .str call.name)]))
      pure ⟨"", some ("Security Policy Violation: Agent '" ++ a.name ++
        "' is not authorized to use tool '" ++ call.name ++ "'.")⟩

/-- Report unless this is a replay. -/
def reportLive (ctx : Ctx) (e : AgentEvent) : Report Unit :=
  if ctx.replayMode then pure () else report e

/-- The tool calls of one response, each with its message. -/
def runTools (a : BaseAgent) (ctx : Ctx) : List ToolCall → Report (List Value)
  | [] => pure []
  | call :: rest => do
    let result ← executeTool a ctx call
    let content := if result.content ≠ "" then result.content else result.error.getD ""
    reportLive ctx (.toolCalled a.name call.name call.arguments (some result.content) result.error)
    let messages ← runTools a ctx rest
    pure (message "tool" content [("name", .str call.name), ("tool_call_id", .str call.id)] ::
      messages)

/-! ## The loop -/

/-- `tc.model_dump()` -/
def ToolCall.value (call : ToolCall) : Value :=
  .obj "ToolCall" [("id", .str call.id), ("name", .str call.name),
    ("arguments", .ofDict call.arguments)]

/-- The event of one response of the model. -/
def llmCalled (a : BaseAgent) (response : LLMResponse) : AgentEvent :=
  let usage := response.usage.getD ⟨0, 0, 0⟩
  .llmCalled a.name
    (if response.model ≠ "" then response.model else
      match a.model with
      | some model => if model ≠ "" then model else "unknown"
      | none => "unknown")
    response.content (response.toolCalls.map (·.value)) usage.inputTokens usage.outputTokens
    usage.estimatedCostUsd (if response.toolCalls.isEmpty then "stop" else "tool_calls")

/-- The result of the last response, one without tool calls. -/
def finalResult (a : BaseAgent) (response : LLMResponse) : AgentResult :=
  let outputText := response.content.getD ""
  { agentName := a.name
    output := outputText
    structuredOutput :=
      match a.structured with
      | some parse => if outputText ≠ "" then parse outputText else none
      | none => none
    messages := [message "assistant" outputText [("name", .str a.name)]]
    stateUpdates := .empty }

/-- `for _iteration in range(self.max_iterations)`, with `left` of them left. -/
def think (a : BaseAgent) (llm : Provider) (ctx : Ctx) : Nat → List Value → Report AgentResult
  | 0, _ => Logged.fail ⟨"MaxIterationsError",
      "Agent '" ++ a.name ++ "' exceeded max_iterations (" ++ toString a.maxIterations ++
        ").\n  Fix: Increase max_iterations or check why the agent keeps calling tools.", true⟩
  | left + 1, messages => do
    let response ← Logged.ofExcept (llm messages)
    reportLive ctx (llmCalled a response)
    if response.toolCalls.isEmpty then
      pure (finalResult a response)
    else
      let asked := message "assistant" (response.content.getD "")
        [("tool_calls", .list (response.toolCalls.map (·.value)))]
      let answers ← runTools a ctx response.toolCalls
      think a llm ctx left (messages ++ asked :: answers)

/-- The messages with which the agent starts. -/
def startMessages (a : BaseAgent) (input : Value) : List Value :=
  message "system" a.systemPrompt [] ::
    match input with
    | .str s => if s ≠ "" then [message "user" s []] else []
    | .list messages => messages
    | _ => []

/-- `BaseAgent.run`. The context carries the provider, if there is one. -/
def BaseAgent.run (a : BaseAgent) (provider : Option Provider) (input : Value) (ctx : Ctx) :
    AgentRun :=
  match provider with
  | none => ⟨[], ctx.restrictedMode, .error ⟨"ProviderError",
      "Agent '" ++ a.name ++ "' has no LLM provider.\n  Fix: Pass a provider when running the " ++
        "workflow, e.g.:\n  compiled.run(state, provider=HttpProvider())", true⟩⟩
  | some llm =>
    let x := think a llm ctx a.maxIterations (startMessages a input)
    ⟨x.log, ctx.restrictedMode, x.result⟩

/-- The node of an agent, with nothing set. -/
def BaseAgent.node (a : BaseAgent) (provider : Option Provider) : AgentNode where
  agentName := a.name
  run := a.run provider
  outputKey := none
  mapOutput := false
  inputMapper := none
  outputMapper := none
  interruptBefore := false
  interruptAfter := false

end orchestra.agent
