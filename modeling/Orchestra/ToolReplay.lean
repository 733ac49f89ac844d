-- Tool calls in replay mode (`BaseAgent._execute_tool` of `agent.py`): a run records its tool
-- calls with what they were given, and an agent that replays it is given for each call what
-- the recorded run has for the first equal one.
import Orchestra.ToolLoop

open dicts programs orchestra.events

namespace orchestra.toolreplay

open orchestra.agents orchestra.toolloop
open Program

/-! ## What a run records -/

/-- A tool call, as a `ToolCalled` event has it. -/
structure ToolCalled where
  agentName : String
  toolName : String
  arguments : PyDict
  result : Option String
  error : Option String
deriving DecidableEq

def toolCalled? : EventBody → Option ToolCalled
  | .agent _ (.toolCalled agentName toolName arguments result error) =>
    some ⟨agentName, toolName, arguments, result, error⟩
  | _ => none

/-- The tool calls among the events of a run, in their order. -/
def toolCalls (events : List EventBody) : List ToolCalled := events.filterMap toolCalled?

/-- What the call was given. -/
def ToolCalled.given (e : ToolCalled) : agent.ToolResult := ⟨e.result.getD "", e.error⟩

/-- The call is made again: the same tool with equal arguments. -/
def ToolCalled.Again (e : ToolCalled) (call : agent.ToolCall) : Prop :=
  e.toolName = call.name ∧ (Value.ofDict e.arguments).equals (.ofDict call.arguments) = true

instance (e : ToolCalled) (call : agent.ToolCall) : Decidable (e.Again call) :=
  inferInstanceAs (Decidable (_ ∧ _))

/-- The event of a call that an agent has made. -/
def recorded (a : BaseAgent) (r : ToolCallRecord) : ToolCalled :=
  ⟨a.name, r.toolCall.name, r.toolCall.arguments, some r.result, r.error⟩

/-- What an agent was given for a call. -/
def givenFor (r : ToolCallRecord) : agent.ToolResult := ⟨r.result, r.error⟩

/-- What a question puts into the store. -/
def storedAt : Answered Ask Answer → List EventBody
  | ⟨.append body, .ok _⟩ => [body]
  | _ => []

/-- The events that a run stores. -/
def stored (trace : Trace) : List EventBody := trace.flatMap storedAt

/-- The result of a run, also the one that its error carries. -/
def outcome : Except Failure AgentResult → Option AgentResult
  | .ok result => some result
  | .error failure => failure.partialOutput

/-- An agent that replays the events, and makes the recorded tool calls again in their order,
is given for them what was recorded. -/
def ReplaysFaithfully (events : List EventBody) : Prop :=
  ∀ (a : BaseAgent) (ctx : Context) (input : Value) (emitPartialOnMaxIterations : Bool)
    (trace : Trace) (r : Except Failure AgentResult) (output : AgentResult),
    ctx.replayEvents = events →
    Path (runAgent a input ctx emitPartialOnMaxIterations) trace (.done r) →
    outcome r = some output →
    List.Forall₂ ToolCalled.Again (toolCalls events) (output.toolCallsMade.map (·.toolCall)) →
    output.toolCallsMade.map givenFor = (toolCalls events).map ToolCalled.given

/-- Recorded calls of one tool with equal arguments were given the same. -/
def Steady (events : List EventBody) : Prop :=
  ∀ e ∈ toolCalls events, ∀ f ∈ toolCalls events, e.toolName = f.toolName →
    (Value.ofDict e.arguments).equals (.ofDict f.arguments) = true → e.given = f.given

variable {a : BaseAgent} {ctx : Context} {events : List EventBody}

/-! ## The loop and its records -/

/-- The terms of a run of which only the stored tool calls count. -/
def storing : Terms Ask Answer (List ToolCalled) where
  note calls e := calls ++ toolCalls (storedAt e)
  given _ _ := True
  may _ _ := True

/-- A question that stores no tool call. -/
def Silent : Ask → Prop
  | .append body => toolCalled? body = none
  | _ => True

theorem silent_keeps {α : Type} {p : Code α} {calls : List ToolCalled} (hp : Asks Silent p) :
    Keeps storing (fun h _ => h = calls) calls p := by
  refine hp.keeps (fun _ _ => trivial) (fun q answer hq _ => ?_)
  show calls ++ toolCalls (storedAt ⟨q, answer⟩) = calls
  cases q with
  | append body =>
    have hnone : toolCalled? body = none := hq
    rcases answer with e | _
    · exact List.append_nil calls
    · simp [storedAt, toolCalls, hnone]
  | _ => exact List.append_nil calls

theorem silent_executeTool (call : agent.ToolCall) : Asks Silent (executeTool a ctx call) := by
  unfold executeTool
  split
  · exact asks_pure _
  split
  · split
    · refine asks_bind (asks_query trivial) (fun answer => ?_)
      split
      · exact asks_pure _
      · exact asks_pure _
    · exact asks_pure _
  · exact asks_bind (questions.asks_emit ⟨rfl, trivial⟩) (fun _ => asks_pure _)

/-- A tool call with its report. -/
def callTool (a : BaseAgent) (ctx : Context) (call : agent.ToolCall) : Code agent.ToolResult := do
  let result ← executeTool a ctx call
  emitLive ctx (.toolCalled a.name call.name call.arguments (some result.content) result.error)
  pure result

/-- What each call keeps of its record holds of the records of the whole loop. -/
def KeptByCalls (R : List ToolCalled → List ToolCallRecord → Prop) (a : BaseAgent)
    (ctx : Context) : Prop :=
  ∀ calls records call, R calls records → Keeps storing (fun h r => ∀ result, r = .ok result →
    R h (records ++ [⟨call, result.content, result.error⟩])) calls (callTool a ctx call)

section loop

variable {R : List ToolCalled → List ToolCallRecord → Prop} {calls : List ToolCalled}
  {records : List ToolCallRecord}

theorem runTools_records (hcall : KeptByCalls R a ctx) (hR : R calls records)
    (toolCalls : List agent.ToolCall) :
    Keeps storing (fun h r => ∀ made, r = .ok made → R h (records ++ made.2)) calls
      (runTools a ctx toolCalls) := by
  induction toolCalls generalizing calls records with
  | nil =>
    refine keeps_pure (T := storing) fun made hmade => ?_
    cases hmade
    simpa using hR
  | cons call rest ih =>
    have hbind : runTools a ctx (call :: rest) = callTool a ctx call >>= fun result =>
        runTools a ctx rest >>= fun made => pure (agent.message "tool"
          (if result.content ≠ "" then result.content else result.error.getD "")
          [("name", .str call.name), ("tool_call_id", .str call.id)] :: made.1,
          ⟨call, result.content, result.error⟩ :: made.2) := by
      unfold callTool
      simp only [runTools, bind_bind, pure_bind']
    rw [hbind]
    refine (hcall calls records call hR).andThen (fun h result hresult => ?_) nofun
    refine (ih (hresult result rfl)).andThen (fun h made hmade => ?_) nofun
    refine keeps_pure (T := storing) fun all hall => ?_
    cases hall
    simpa using hmade made rfl

theorem bare_keeps {α β : Type} {p : Code α} {f : α → LoopCode β}
    {middle : List ToolCalled → α → Prop} {post : List ToolCalled → Except Failure β → Prop}
    (hp : Keeps storing (fun h r => ∀ x, r = .ok x → middle h x) calls p)
    (hok : ∀ h x, middle h x → Keeps storing post h (f x))
    (herror : ∀ h e, post h (.error ⟨e, none⟩)) : Keeps storing post calls (bare p >>= f) := by
  unfold bare
  refine keeps_bind (Keeps.mapError (hp.weaken fun h r hr => ?_))
  rcases r with e | x
  · exact herror h e
  · exact hok h x (hr x rfl)

/-- A part that stores no tool call. -/
theorem bare_silent {α β : Type} {p : Code α} {f : α → LoopCode β}
    {post : List ToolCalled → Except Failure β → Prop} (hp : Asks Silent p)
    (hok : ∀ x, Keeps storing post calls (f x)) (herror : ∀ h e, post h (.error ⟨e, none⟩)) :
    Keeps storing post calls (bare p >>= f) := by
  have hsilent : Keeps storing (fun h r => ∀ x, r = .ok x → h = calls) calls p :=
    (silent_keeps hp).weaken fun h r hr _ _ => hr
  refine bare_keeps hsilent (fun h x hsame => ?_) herror
  subst hsame
  exact hok x

theorem toolLoop_records (hcall : KeptByCalls R a ctx) (hR : R calls records)
    (emitPartialOnMaxIterations : Bool) (left : Nat) (messages : List Value)
    (usage : TokenUsage) :
    Keeps storing (fun h r => ∀ output, outcome r = some output → R h output.toolCallsMade) calls
      (toolLoop a ctx emitPartialOnMaxIterations left messages usage records) := by
  have herror : ∀ (h : List ToolCalled) (e : Raised) (output : AgentResult),
      outcome (.error ⟨e, none⟩) = some output → R h output.toolCallsMade := nofun
  induction left generalizing calls records messages usage with
  | zero =>
    unfold toolLoop
    split
    · refine keeps_pure (T := storing) fun output houtput => ?_
      cases houtput
      exact hR
    · refine keeps_fail (T := storing) fun output houtput => ?_
      cases houtput
      exact hR
  | succ left ih =>
    unfold toolLoop
    refine bare_silent (questions.asks_enforceBudget trivial) (fun _ => ?_) herror
    refine bare_silent (questions.asks_complete trivial) (fun response => ?_) herror
    refine bare_silent (questions.asks_emitLive ⟨rfl, trivial⟩) (fun _ => ?_) herror
    split
    · refine keeps_pure (T := storing) fun output houtput => ?_
      cases houtput
      exact hR
    · refine bare_keeps (runTools_records hcall hR response.toolCalls) (fun h made hmade => ?_)
        herror
      exact ih hmade _ _

/-- The rule of the loop: what every call keeps of the records, an end of the run has. -/
theorem runAgent_records (hcall : KeptByCalls R a ctx) (hR : R [] []) {input : Value}
    {emitPartialOnMaxIterations : Bool} {trace : Trace} {r : Except Failure AgentResult}
    {output : AgentResult} (hpath : Path (runAgent a input ctx emitPartialOnMaxIterations) trace
      (.done r)) (houtput : outcome r = some output) :
    R (toolCalls (stored trace)) output.toolCallsMade := by
  have hstart : Keeps storing (fun h r => ∀ output, outcome r = some output →
      R h output.toolCallsMade) [] (runAgent a input ctx emitPartialOnMaxIterations) := by
    unfold runAgent
    split
    · exact toolLoop_records hcall hR _ _ _ _
    · exact keeps_fail (T := storing) nofun
  have hhonest : ∀ (h : List ToolCalled) (trace : Trace), storing.Honest h trace := by
    intro h trace
    induction trace generalizing h with
    | nil => trivial
    | cons e rest ih => exact ⟨trivial, ih _⟩
  have hhistory : ∀ (h : List ToolCalled) (trace : Trace),
      trace.foldl storing.note h = h ++ toolCalls (stored trace) := by
    intro h trace
    induction trace generalizing h with
    | nil => exact (List.append_nil h).symm
    | cons e rest ih =>
      rw [List.foldl_cons, ih]
      simp [storing, stored, toolCalls]
  have hend := hstart.path hpath (hhonest [] trace)
  rw [hhistory, List.nil_append] at hend
  exact hend output houtput

end loop

/-! ## A run and its record -/

theorem callTool_live (hlive : ctx.replayEvents = []) (hbus : ctx.hasBus = true) :
    KeptByCalls (fun calls records => calls = records.map (recorded a)) a ctx := by
  intro calls records call hcalls
  unfold callTool
  refine (silent_keeps (silent_executeTool call)).andThen (fun h result hsame => ?_) nofun
  subst hsame hcalls
  have hmode : ctx.replayMode = false := by simp [nodes.Ctx.replayMode, hlive]
  unfold emitLive emit
  simp only [hmode, hbus, Bool.false_eq_true, if_false, if_true]
  refine ⟨trivial, fun answer _ => ?_⟩
  rcases answer with e | _
  · exact nofun
  · refine ⟨trivial, fun _ _ result' hresult => ?_⟩
    cases hresult
    simp [storing, storedAt, toolCalls, toolCalled?, recorded]

/-- A run that is no replay stores each of its tool calls, with what the agent was given. -/
theorem live_run_is_recorded (hlive : ctx.replayEvents = []) (hbus : ctx.hasBus = true)
    {input : Value} {emitPartialOnMaxIterations : Bool} {trace : Trace}
    {r : Except Failure AgentResult} {output : AgentResult}
    (hpath : Path (runAgent a input ctx emitPartialOnMaxIterations) trace (.done r))
    (houtput : outcome r = some output) :
    toolCalls (stored trace) = output.toolCallsMade.map (recorded a) :=
  runAgent_records (callTool_live hlive hbus) rfl hpath houtput

/-! ## Calls that are made again -/

/-- A call is given what the first equal call was given. -/
theorem replayed_eq (call : agent.ToolCall) (events : List EventBody) :
    agent.replayed call events =
      ((toolCalls events).find? (fun e => e.Again call)).map ToolCalled.given := by
  induction events with
  | nil => rfl
  | cons body rest ih =>
    unfold agent.replayed
    split
    · rename_i heq
      cases heq
    · rename_i nodeId agentName toolName arguments result error rest' heq
      obtain ⟨rfl, rfl⟩ := List.cons.inj heq
      have hcalls : toolCalls (.agent nodeId
          (.toolCalled agentName toolName arguments result error) :: rest) =
          ⟨agentName, toolName, arguments, result, error⟩ :: toolCalls rest := rfl
      rw [hcalls, List.find?_cons]
      split
      · rename_i hsame
        have hagain : ToolCalled.Again ⟨agentName, toolName, arguments, result, error⟩ call := hsame
        simp [hagain, ToolCalled.given]
      · rename_i hother
        have hagain : ¬ ToolCalled.Again ⟨agentName, toolName, arguments, result, error⟩ call :=
          hother
        simpa [hagain] using ih
    · rename_i body' rest' hbody heq
      obtain ⟨rfl, rfl⟩ := List.cons.inj heq
      have hnone : toolCalled? body = none := by
        unfold toolCalled?
        split
        · rename_i nodeId agentName toolName arguments result error
          exact absurd rfl (hbody nodeId agentName toolName arguments result error)
        · rfl
      simpa [toolCalls, hnone] using ih

/-- A call that was recorded is given what the first equal call was given. -/
theorem replayed_of_again {e : ToolCalled} (he : e ∈ toolCalls events) {call : agent.ToolCall}
    (h : e.Again call) :
    ∃ f ∈ toolCalls events, f.Again call ∧ agent.replayed call events = some f.given := by
  have hsome : ((toolCalls events).find? (fun e => e.Again call)).isSome = true := by
    rw [List.find?_isSome]
    exact ⟨e, he, by simpa using h⟩
  obtain ⟨f, hf⟩ := Option.isSome_iff_exists.mp hsome
  refine ⟨f, List.mem_of_find?_eq_some hf, by simpa using List.find?_some hf, ?_⟩
  rw [replayed_eq, hf]
  rfl

theorem executeTool_replayed {call : agent.ToolCall} {result : agent.ToolResult}
    (h : agent.replayed call ctx.replayEvents = some result) :
    executeTool a ctx call = pure result := by
  unfold executeTool
  rw [h]

theorem replayMode_of_replayed {call : agent.ToolCall} {result : agent.ToolResult}
    (h : agent.replayed call ctx.replayEvents = some result) : ctx.replayMode = true := by
  unfold nodes.Ctx.replayMode
  rcases hevents : ctx.replayEvents with _ | ⟨body, rest⟩
  · rw [hevents] at h
    cases h
  · rfl

theorem callTool_replayed {call : agent.ToolCall} {result : agent.ToolResult}
    (h : agent.replayed call ctx.replayEvents = some result) :
    callTool a ctx call = pure result := by
  unfold callTool emitLive
  rw [executeTool_replayed h, replayMode_of_replayed h]
  rfl

/-- The record of a call has what the replay gives for it. -/
def AsReplayed (events : List EventBody) (r : ToolCallRecord) : Prop :=
  ∀ result, agent.replayed r.toolCall events = some result → givenFor r = result

theorem keeps_anything {α : Type} (p : Code α) (calls : List ToolCalled) :
    Keeps storing (fun _ _ => True) calls p := by
  induction p generalizing calls with
  | done r => trivial
  | ask q next ih => exact ⟨trivial, fun answer _ => ih answer _⟩

theorem callTool_asReplayed (hevents : ctx.replayEvents = events) :
    KeptByCalls (fun _ records => ∀ r ∈ records, AsReplayed events r) a ctx := by
  intro calls records call hrecords
  have hlast : ∀ result : agent.ToolResult,
      AsReplayed events ⟨call, result.content, result.error⟩ →
      ∀ r ∈ records ++ [⟨call, result.content, result.error⟩], AsReplayed events r := by
    intro result hresult r hr
    rcases List.mem_append.mp hr with hold | hnew
    · exact hrecords r hold
    · rw [List.mem_singleton.mp hnew]
      exact hresult
  rcases hreplayed : agent.replayed call events with _ | result
  · refine (keeps_anything _ calls).weaken fun h r _ result _ => hlast result ?_
    intro other hother
    rw [hreplayed] at hother
    cases hother
  · have hcall : callTool a ctx call = pure result := callTool_replayed (by rw [hevents, hreplayed])
    rw [hcall]
    refine keeps_pure (T := storing) fun result' hresult' => hlast result' ?_
    cases hresult'
    intro other hother
    rw [hreplayed] at hother
    exact Option.some.inj hother

/-! ## When a replay is faithful -/

theorem given_of_again {es : List ToolCalled} {made : List ToolCallRecord}
    (h : List.Forall₂ ToolCalled.Again es (made.map (·.toolCall)))
    (hgiven : ∀ e ∈ es, ∀ r ∈ made, e.Again r.toolCall → givenFor r = e.given) :
    made.map givenFor = es.map ToolCalled.given := by
  induction made generalizing es with
  | nil =>
    cases h
    rfl
  | cons r made ih =>
    cases h with
    | @cons e _ es _ hfirst hrest =>
      have htail := ih hrest fun e he r hr => hgiven e (List.mem_cons_of_mem _ he) r
        (List.mem_cons_of_mem _ hr)
      simp [hgiven e (by simp) r (by simp) hfirst, htail]

theorem replaysFaithfully_of_steady (h : Steady events) : ReplaysFaithfully events := by
  intro a ctx input emitPartial trace r output hevents hpath houtput hagain
  have hmade := runAgent_records (callTool_asReplayed hevents) (by simp) hpath houtput
  refine given_of_again hagain fun e he record hrecord hsame => ?_
  obtain ⟨f, hf, hfirst, hreplayed⟩ := replayed_of_again he hsame
  rw [hmade record hrecord _ hreplayed]
  refine h f hf e he (hfirst.1.trans hsame.1.symm) ?_
  have hleft := hfirst.2
  have hright := hsame.2
  simp only [Value.equals, decide_eq_true_iff] at hleft hright ⊢
  rw [hleft, hright]

/-- The recorded call, to be made again. -/
def ToolCalled.call (e : ToolCalled) : agent.ToolCall := ⟨"", e.toolName, e.arguments⟩

theorem again_call (e : ToolCalled) : e.Again e.call :=
  ⟨rfl, by simp [ToolCalled.call, Value.equals]⟩

/-- Calls that were recorded are replayed without a question. -/
theorem runTools_replayed (hevents : ctx.replayEvents = events) {es : List ToolCalled}
    (hes : ∀ e ∈ es, e ∈ toolCalls events) :
    ∃ made, runTools a ctx (es.map ToolCalled.call) = pure made ∧
      made.2.map (·.toolCall) = es.map ToolCalled.call ∧
      ∀ r ∈ made.2, AsReplayed events r := by
  induction es with
  | nil => exact ⟨([], []), rfl, rfl, by simp⟩
  | cons e es ih =>
    obtain ⟨made, hmade, hcalls, hreplayed⟩ := ih fun e he => hes e (List.mem_cons_of_mem _ he)
    obtain ⟨f, -, -, hfirst⟩ := replayed_of_again (hes e (by simp)) (again_call e)
    have hhere : agent.replayed e.call ctx.replayEvents = some f.given := by rw [hevents, hfirst]
    have hemit : ∀ event, emitLive ctx event = pure () := by
      intro event
      unfold emitLive
      rw [replayMode_of_replayed hhere]
      rfl
    have hrun : runTools a ctx ((e :: es).map ToolCalled.call) = pure (agent.message "tool"
        (if f.given.content ≠ "" then f.given.content else f.given.error.getD "")
        [("name", .str e.call.name), ("tool_call_id", .str e.call.id)] :: made.1,
        ⟨e.call, f.given.content, f.given.error⟩ :: made.2) := by
      rw [List.map_cons]
      unfold runTools
      rw [executeTool_replayed hhere]
      simp only [pure_bind', hemit, hmade]
    refine ⟨_, hrun, by simp [hcalls], ?_⟩
    intro r hr
    rcases List.mem_cons.mp hr with rfl | hr
    · intro result hresult
      have hsame : agent.replayed e.call events = some result := hresult
      rw [hfirst] at hsame
      exact Option.some.inj hsame
    · exact hreplayed r hr

/-- An agent that has one call of the model to make. -/
def caller : BaseAgent where
  name := "a"
  model := none
  systemPrompt := "p"
  tools := ["t"]
  acl := none
  maxIterations := 1
  temperature := 0
  structured := none

/-- A response that asks for these tools. -/
def asksFor (calls : List agent.ToolCall) : LLMResponse := ⟨none, calls, none, "m"⟩

/-- A run of one response, which asks for tools that need no question. -/
theorem path_caller (hctx : ctx.hasProvider = true) (hbudget : ctx.budgetPolicy = none)
    (hquiet : ∀ event, emitLive ctx event = pure ()) {calls : List agent.ToolCall}
    (hcalls : calls ≠ []) {made : List Value × List ToolCallRecord}
    (hmade : runTools caller ctx calls = pure made) :
    ∃ trace output, Path (runAgent caller .none ctx true) trace (.done (.ok output)) ∧
      output.toolCallsMade = made.2 := by
  have hasks : (asksFor calls).toolCalls.isEmpty = false := by
    simpa [asksFor] using hcalls
  have hbudget' : enforceBudget ctx = pure () := by simp only [enforceBudget, hbudget]
  have hask : ∀ (request : Request) (f : LLMResponse → LoopCode AgentResult),
      bare (complete .loop request) >>= f = .ask (.complete .loop [request])
        (fun answers => bare (Program.ofExcept (answers (0 : Fin 1))) >>= f) := fun _ _ => rfl
  have hgive : ∀ f : LLMResponse → LoopCode AgentResult,
      bare (Program.ofExcept (.ok (asksFor calls))) >>= f = f (asksFor calls) := fun _ => rfl
  have hnone : ∀ f : Unit → LoopCode AgentResult, bare (pure ()) >>= f = f () := fun _ => rfl
  have htools : ∀ f : _ → LoopCode AgentResult,
      bare (runTools caller ctx (asksFor calls).toolCalls) >>= f = f made := by
    intro f
    show bare (runTools caller ctx calls) >>= f = f made
    rw [hmade]
    rfl
  unfold runAgent
  rw [if_pos hctx]
  have hpath : Path (toolLoop caller ctx true 1 (startMessages "p" .none) .zero [])
      [⟨.complete .loop [⟨startMessages "p" .none, none, some ["t"], 0⟩],
        fun _ => .ok (asksFor calls)⟩]
      (.done (.ok (partialResult caller
        (startMessages "p" .none ++ assistantMessage (asksFor calls) :: made.1)
        (TokenUsage.zero.add (asksFor calls).spent) made.2))) := by
    unfold toolLoop
    rw [hbudget', hnone, hask]
    refine .answer _ ?_
    dsimp only
    rw [hgive, hquiet, hnone, hasks]
    simp only [Bool.false_eq_true, if_false]
    rw [htools]
    exact .stay _
  exact ⟨_, _, hpath, rfl⟩

/-- A replay that gives what was recorded gives it for each call. -/
theorem replayed_call {made : List ToolCallRecord}
    (hcalls : made.map (·.toolCall) = (toolCalls events).map ToolCalled.call)
    (hgiven : made.map givenFor = (toolCalls events).map ToolCalled.given)
    (hreplayed : ∀ r ∈ made, AsReplayed events r) {e : ToolCalled} (he : e ∈ toolCalls events) :
    agent.replayed e.call events = some e.given := by
  obtain ⟨f, -, -, hfirst⟩ := replayed_of_again he (again_call e)
  obtain ⟨i, hi, hget⟩ := List.getElem_of_mem he
  have hlen : made.length = (toolCalls events).length := by
    simpa using congrArg List.length hcalls
  have hcall : made[i].toolCall = e.call := by
    have hat : (made.map (·.toolCall))[i]? = ((toolCalls events).map ToolCalled.call)[i]? := by
      rw [hcalls]
    simpa [hi, hlen, hget] using hat
  have hresult : givenFor made[i] = e.given := by
    have hat : (made.map givenFor)[i]? = ((toolCalls events).map ToolCalled.given)[i]? := by
      rw [hgiven]
    simpa [hi, hlen, hget] using hat
  have hrecord := hreplayed made[i] (List.getElem_mem _) f.given (by rw [hcall, hfirst])
  rw [hfirst, ← hrecord, hresult]

/-- Equal calls are given the same. -/
theorem replayed_congr {call other : agent.ToolCall} (hname : call.name = other.name)
    (hargs : (Value.ofDict call.arguments).equals (.ofDict other.arguments) = true) :
    agent.replayed call events = agent.replayed other events := by
  have hsame : ∀ e : ToolCalled, e.Again call ↔ e.Again other := by
    intro e
    simp only [Value.equals, decide_eq_true_iff] at hargs
    simp only [ToolCalled.Again, Value.equals, decide_eq_true_iff, hname, hargs]
  simp only [replayed_eq, hsame]

/-- The context of a replay. -/
def replayContext (events : List EventBody) : Context :=
  { quietContext with replayEvents := events }

theorem steady_of_replaysFaithfully (h : ReplaysFaithfully events) : Steady events := by
  intro e he f hf hname hargs
  have hevents : (replayContext events).replayEvents = events := rfl
  obtain ⟨made, hmade, hcalls, hreplayed⟩ :=
    runTools_replayed (a := caller) hevents (fun e he => he : ∀ e ∈ toolCalls events, _)
  have hquiet : ∀ event, emitLive (replayContext events) event = pure () := by
    intro event
    unfold emitLive emit
    split
    · rfl
    · rfl
  have hnone : (toolCalls events).map ToolCalled.call ≠ [] := by
    simpa using List.ne_nil_of_mem he
  obtain ⟨trace, output, hpath, houtput⟩ := path_caller rfl rfl hquiet hnone hmade
  have hagain : List.Forall₂ ToolCalled.Again (toolCalls events)
      (output.toolCallsMade.map (·.toolCall)) := by
    rw [houtput, hcalls, List.forall₂_map_right_iff]
    exact List.forall₂_same.mpr fun e _ => again_call e
  have hgiven := h caller (replayContext events) .none true trace _ output rfl hpath rfl hagain
  rw [houtput] at hgiven
  have hcall : ∀ e ∈ toolCalls events, agent.replayed e.call events = some e.given :=
    fun e he => replayed_call hcalls hgiven hreplayed he
  have hsame := (hcall e he).symm.trans ((replayed_congr hname hargs).trans (hcall f hf))
  exact Option.some.inj hsame

/-- A replay gives the recorded results for the recorded calls just when equal calls were
recorded with equal results. -/
theorem replaysFaithfully_iff (events : List EventBody) :
    ReplaysFaithfully events ↔ Steady events :=
  ⟨steady_of_replaysFaithfully, replaysFaithfully_of_steady⟩

/-! ## A tool that is polled -/

/-- A run on a bus that is no replay. -/
def liveContext : Context := { quietContext with hasBus := true }

/-- The tool is asked twice, without arguments. -/
def polling : LLMResponse := asksFor [⟨"1", "t", .empty⟩, ⟨"2", "t", .empty⟩]

def pollingTrace : Trace :=
  [⟨.complete .loop [⟨startMessages "p" .none, none, some ["t"], 0⟩], fun _ => .ok polling⟩,
    ⟨.append (.agent "n" (llmCalled caller polling)), .ok ()⟩,
    ⟨.announce (.agent "n" (llmCalled caller polling)), ()⟩,
    ⟨.execute "t" .empty, .ok ⟨"pending", none⟩⟩,
    ⟨.append (.agent "n" (.toolCalled "a" "t" .empty (some "pending") none)), .ok ()⟩,
    ⟨.announce (.agent "n" (.toolCalled "a" "t" .empty (some "pending") none)), ()⟩,
    ⟨.execute "t" .empty, .ok ⟨"done", none⟩⟩,
    ⟨.append (.agent "n" (.toolCalled "a" "t" .empty (some "done") none)), .ok ()⟩,
    ⟨.announce (.agent "n" (.toolCalled "a" "t" .empty (some "done") none)), ()⟩]

theorem a_polling_run_is_recorded : ∃ output : AgentResult,
    toolCalls (stored pollingTrace) = output.toolCallsMade.map (recorded caller) :=
  ⟨_, live_run_is_recorded rfl rfl
    (show Path (runAgent caller .none liveContext true) pollingTrace (.done _) from
      .answer _ (.answer _ (.answer _ (.answer _ (.answer _ (.answer _ (.answer _
        (.answer _ (.answer _ (.stay _)))))))))) rfl⟩

/-- The replay of a run that polls a tool is given the first answer twice. -/
theorem a_polled_tool_is_not_replayed :
    ¬ ∀ (a : BaseAgent) (ctx : Context) (input : Value) (emitPartialOnMaxIterations : Bool)
      (trace : Trace) (r : Except Failure AgentResult), ctx.replayEvents = [] →
      Path (runAgent a input ctx emitPartialOnMaxIterations) trace (.done r) →
      ReplaysFaithfully (stored trace) := by
  intro h
  have hpath : ∃ r, Path (runAgent caller .none liveContext true) pollingTrace (.done r) :=
    ⟨_, .answer _ (.answer _ (.answer _ (.answer _ (.answer _ (.answer _ (.answer _
      (.answer _ (.answer _ (.stay _)))))))))⟩
  obtain ⟨r, hpath⟩ := hpath
  have hsteady := steady_of_replaysFaithfully (h caller liveContext .none true pollingTrace r rfl
    hpath)
  have hgiven := hsteady ⟨"a", "t", .empty, some "pending", none⟩ (by decide)
    ⟨"a", "t", .empty, some "done", none⟩ (by decide) rfl (by decide)
  exact absurd (congrArg agent.ToolResult.content hgiven) (by decide)

end orchestra.toolreplay
