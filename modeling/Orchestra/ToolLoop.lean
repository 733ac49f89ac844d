-- The tool loop of an agent (`BaseAgent.run`) keeps the protocol of the chat: whatever
-- the model and the tools do, each message that asks for tools is followed by the answers
-- to its calls, and the result accounts for every call.
import Orchestra.Usage

open dicts programs orchestra.events

namespace orchestra.toolloop

open orchestra.agents orchestra.metering orchestra.questions
open Program

/-! ## The loop with what its error carries -/

/-- An exception that the run of an agent raises. `partial_output` is an attribute of
`MaxIterationsError` only. -/
structure Failure where
  raised : Raised
  partialOutput : Option AgentResult

abbrev LoopCode := Program Ask Answer Failure

/-- Code whose exceptions carry no result. -/
def bare {α : Type} (p : Code α) : LoopCode α := p.mapError (fun e => ⟨e, none⟩)

/-- `Message(role=ASSISTANT, ..)` for a response that asks for tools. -/
def assistantMessage (response : LLMResponse) : Value :=
  agent.message "assistant" (response.content.getD "")
    [("tool_calls", .list (response.toolCalls.map (·.value)))]

/-- `for _iteration in range(self.max_iterations)`, with `left` of them left. -/
def toolLoop (a : BaseAgent) (ctx : Context) (emitPartialOnMaxIterations : Bool) :
    Nat → List Value → TokenUsage → List ToolCallRecord → LoopCode AgentResult
  | 0, messages, usage, records =>
    if emitPartialOnMaxIterations then pure (partialResult a messages usage records)
    else Program.fail ⟨maxIterationsError a, some (partialResult a messages usage records)⟩
  | left + 1, messages, usage, records => do
    bare (enforceBudget ctx)
    let response ← bare (complete .loop ⟨messages, a.model,
      if a.tools.isEmpty then none else a.tools, a.temperature⟩)
    bare (emitLive ctx (llmCalled a response))
    if response.toolCalls.isEmpty then
      pure (finalResult a response (usage.add response.spent) records)
    else do
      let (answers, made) ← bare (runTools a ctx response.toolCalls)
      toolLoop a ctx emitPartialOnMaxIterations left
        (messages ++ assistantMessage response :: answers) (usage.add response.spent)
        (records ++ made)

/-- `BaseAgent.run` -/
def runAgent (a : BaseAgent) (input : Value) (ctx : Context) (emitPartialOnMaxIterations : Bool) :
    LoopCode AgentResult :=
  if ctx.hasProvider then
    toolLoop a ctx emitPartialOnMaxIterations a.maxIterations (startMessages a.systemPrompt input)
      .zero []
  else Program.fail ⟨noProviderError a.name, none⟩

variable {a : BaseAgent} {ctx : Context}

theorem raised_bare {α : Type} (p : Code α) : (bare p).mapError Failure.raised = p :=
  mapError_mapError _ (fun _ => rfl) p

/-- Without what its error carries, the loop is the one of `Agents.lean`. -/
theorem raised_toolLoop (emitPartialOnMaxIterations : Bool) (left : Nat) (messages : List Value)
    (usage : TokenUsage) (records : List ToolCallRecord) :
    (toolLoop a ctx emitPartialOnMaxIterations left messages usage records).mapError
        Failure.raised =
      think a ctx emitPartialOnMaxIterations left messages usage records := by
  induction left generalizing messages usage records with
  | zero =>
    unfold toolLoop think
    split
    · rfl
    · rfl
  | succ left ih =>
    unfold toolLoop think
    simp only [mapError_bind, raised_bare]
    refine bind_congr fun _ => bind_congr fun response => bind_congr fun _ => ?_
    split
    · rfl
    · simp only [mapError_bind, raised_bare]
      exact bind_congr fun made => ih _ _ _

theorem raised_runAgent (input : Value) (emitPartialOnMaxIterations : Bool) :
    (runAgent a input ctx emitPartialOnMaxIterations).mapError Failure.raised =
      a.run input ctx emitPartialOnMaxIterations := by
  unfold runAgent BaseAgent.run
  split
  · exact raised_toolLoop _ _ _ _ _
  · rfl

/-! ## The protocol -/

/-- The one message that answers a call, under its id. -/
def AnswersCall (call : agent.ToolCall) (message : Value) : Prop :=
  ∃ content, message = agent.message "tool" content
    [("name", .str call.name), ("tool_call_id", .str call.id)]

/-- The messages that begin with `start` and go on, for each response so far, with the
message that asks for its tools and the answers to its calls, in their order. -/
inductive Transcript (start : List Value) : List LLMResponse → List Value → Prop
  | start : Transcript start [] start
  | turn {responses : List LLMResponse} {messages answers : List Value} (response : LLMResponse)
    (before : Transcript start responses messages)
    (answered : List.Forall₂ AnswersCall response.toolCalls answers) :
    Transcript start (responses ++ [response]) (messages ++ assistantMessage response :: answers)

/-- What the model answered, with its exceptions. -/
def answersAt : Answered Ask Answer → List (Except Raised LLMResponse)
  | ⟨.complete _ _, answers⟩ => List.ofFn answers
  | _ => []

/-- The responses among the answers. -/
def responsesOf (answers : List (Except Raised LLMResponse)) : List LLMResponse :=
  answers.filterMap Except.toOption

/-- The terms of a chat. The history is what the model has answered so far. -/
def chat (a : BaseAgent) (ctx : Context) (start : List Value) :
    Terms Ask Answer (List (Except Raised LLMResponse)) where
  note answers e := answers ++ answersAt e
  given _ _ := True
  may answers q :=
    match q with
    | .complete _ requests => answers.length + requests.length ≤ a.maxIterations ∧
        ∀ request ∈ requests, Transcript start (responsesOf answers) request.messages
    | .execute toolName _ => a.authorizes ctx toolName = .ok true
    | _ => True

/-- A result accounts for all calls of the model and for all calls of tools. -/
structure Accounts (answers : List (Except Raised LLMResponse)) (result : AgentResult) : Prop where
  usage : result.tokenUsage = some ((responsesOf answers).map (·.spent)).sum
  calls : result.toolCallsMade.map (·.toolCall) = (responsesOf answers).flatMap (·.toolCalls)

/-- So does the result of a run, and the one that its error carries. -/
def Ends (answers : List (Except Raised LLMResponse)) : Except Failure AgentResult → Prop
  | .ok result => Accounts answers result
  | .error failure => ∀ result, failure.partialOutput = some result → Accounts answers result

/-! ## What the loop keeps -/

variable {start : List Value} {answers : List (Except Raised LLMResponse)} {α : Type}

/-- The loop between two calls of the model, with `left` of them left. -/
structure Chatting (a : BaseAgent) (start : List Value)
    (answers : List (Except Raised LLMResponse)) (left : Nat) (messages : List Value)
    (usage : TokenUsage) (records : List ToolCallRecord) : Prop where
  room : answers.length + left ≤ a.maxIterations
  transcript : Transcript start (responsesOf answers) messages
  usage : usage = ((responsesOf answers).map (·.spent)).sum
  calls : records.map (·.toolCall) = (responsesOf answers).flatMap (·.toolCalls)

theorem responsesOf_snoc (response : LLMResponse) :
    responsesOf (answers ++ [.ok response]) = responsesOf answers ++ [response] := by
  simp [responsesOf, Except.toOption]

theorem usage_snoc (response : LLMResponse) :
    ((responsesOf (answers ++ [.ok response])).map (·.spent)).sum =
      ((responsesOf answers).map (·.spent)).sum + response.spent := by
  rw [responsesOf_snoc, List.map_append, List.sum_append]
  simp

variable {left : Nat} {messages : List Value} {usage : TokenUsage} {records : List ToolCallRecord}

theorem Chatting.accounts (h : Chatting a start answers left messages usage records) :
    Accounts answers (partialResult a messages usage records) :=
  ⟨congrArg some h.usage, h.calls⟩

/-- A response that asks for no tool ends the chat. -/
theorem Chatting.finish (h : Chatting a start answers left messages usage records)
    {response : LLMResponse} (hcalls : response.toolCalls.isEmpty = true) :
    Accounts (answers ++ [.ok response])
      (finalResult a response (usage.add response.spent) records) := by
  refine ⟨?_, ?_⟩
  · rw [usage_snoc, ← h.usage]
    rfl
  · rw [responsesOf_snoc, List.flatMap_append, ← h.calls]
    simp [finalResult, List.isEmpty_iff.mp hcalls]

/-- A response whose calls are answered brings the chat to its next call. -/
theorem Chatting.turn (h : Chatting a start answers (left + 1) messages usage records)
    {response : LLMResponse} {made : List Value × List ToolCallRecord}
    (hanswers : List.Forall₂ AnswersCall response.toolCalls made.1)
    (hrecords : made.2.map (·.toolCall) = response.toolCalls) :
    Chatting a start (answers ++ [.ok response]) left
      (messages ++ assistantMessage response :: made.1) (usage.add response.spent)
      (records ++ made.2) where
  room := by
    have hroom := h.room
    simp only [List.length_append, List.length_singleton]
    omega
  transcript := by
    rw [responsesOf_snoc]
    exact .turn response h.transcript hanswers
  usage := by
    rw [usage_snoc, ← h.usage]
    rfl
  calls := by
    rw [responsesOf_snoc, List.flatMap_append, ← h.calls]
    simp [hrecords]

/-- The answers of the model in a trace. -/
def answered (trace : Trace) : List (Except Raised LLMResponse) := trace.flatMap answersAt

def quietContext : Context where
  runId := "run"
  nodeId := "n"
  turnNumber := 0
  config := .empty
  restrictedMode := false
  replayEvents := []
  hasBus := false
  loopCounters := .empty
  nodeExecutionOrder := []
  moment := ⟨[], none⟩
  hasProvider := true
  budgetPolicy := none
  costAggregator := false
  ucanToken := none
  host := ⟨⟨fun _ => none, 0⟩, Char.isDigit⟩

/-- A response that asks for the tool. -/
def asking : LLMResponse := ⟨none, [⟨"1", "t", .empty⟩], some ⟨⟨2, 3, 0⟩, 5⟩, "m"⟩

end orchestra.toolloop
