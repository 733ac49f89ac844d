-- The spans of a run (`OTelTraceSubscriber` of `observability/tracing.py`): which spans the events
-- of the engine start and end, over a `run` and the resumes after it.
import Mathlib.Data.List.Forall2
import Orchestra.Lib.Arena
import Orchestra.Lib.Text
import Orchestra.Sessions

open arenas dicts logged machine texts orchestra.state orchestra.edges orchestra.events
open orchestra.nodes orchestra.compiled orchestra.turns orchestra.runs orchestra.sessions

namespace orchestra.tracing

/-! ## Spans -/

inductive SpanName
  | workflowRun
  | node (nodeId : String)
  | chat
  | tool (toolName : String)
  | fanOut
deriving DecidableEq

def SpanName.text : SpanName → String
  | workflowRun => "workflow.run"
  | node nodeId => "node." ++ nodeId
  | chat => "gen_ai.chat"
  | tool toolName => "tool." ++ toolName
  | fanOut => "parallel.fan_out"

inductive Attribute
  | str (s : String)
  | nat (n : Nat)
  | rat (x : Rat)
  | list (items : List String)
deriving DecidableEq

inductive StatusCode
  | ok
  | error
deriving DecidableEq

/-- What a span is started with. A span goes by its place among all spans. -/
structure Started where
  name : SpanName
  parent : Option Nat
  attributes : List (String × Attribute)
deriving DecidableEq

/-- What is called on a span. -/
inductive SpanCall
  | setAttribute (key : String) (value : Attribute)
  | setStatus (code : StatusCode) (description : Option String)
  | recordException (errorType message : String)
  | ended
deriving DecidableEq

def SpanCall.isEnd : SpanCall → Bool
  | ended => true
  | _ => false

structure Span where
  start : Started
  calls : List SpanCall
deriving DecidableEq

def Span.then (s : Span) (call : SpanCall) : Span := { s with calls := s.calls ++ [call] }

/-- How often the span was ended. -/
def Span.ends (s : Span) : Nat := s.calls.countP SpanCall.isEnd

/-! ## Attributes of a model call (`_span_attributes.py`) -/

/-- `_MODEL_PROVIDER_MAP` -/
def modelProviderMap : List (String × String) :=
  [("gpt", "openai"), ("o1", "openai"), ("o3", "openai"), ("o4", "openai"), ("chatgpt", "openai"),
    ("claude", "anthropic"), ("gemini", "google"), ("palm", "google"), ("command", "cohere"),
    ("llama", "meta"), ("mistral", "mistralai"), ("mixtral", "mistralai"),
    ("deepseek", "deepseek"), ("qwen", "alibaba")]

def extractProvider (model : String) : String :=
  if model = "" then "unknown"
  else
    match modelProviderMap.find? (fun e => startsWith (lower model) e.1) with
    | some e => e.2
    | none => "unknown"

/-- `should_capture_content`, for the value of the variable. -/
def shouldCaptureContent (capture : String) : Bool := lower capture ∈ ["true", "1", "yes"]

def llmEventToAttributes (capture model : String) (content : Option String)
    (inputTokens outputTokens : Nat) (finishReason : String) : List (String × Attribute) :=
  [("gen_ai.system", .str (extractProvider model)), ("gen_ai.request.model", .str model),
    ("gen_ai.usage.input_tokens", .nat inputTokens),
    ("gen_ai.usage.output_tokens", .nat outputTokens)] ++
  (if finishReason = "" then [] else [("gen_ai.response.finish_reasons", .list [finishReason])]) ++
  (if shouldCaptureContent capture then
    match content with
    | some content => [("gen_ai.completion", .str content)]
    | none => []
  else [])

def toolAttributes (toolName nodeId : String) (error : Option String) :
    List (String × Attribute) :=
  [("tool.name", .str toolName), ("node.id", .str nodeId)] ++
    match error with
    | some error => if error = "" then [] else [("tool.error", .str error)]
    | none => []

/-! ## The subscriber -/

/-- The open spans of a run. -/
structure RunData where
  workflow : Nat
  nodes : Dict String Nat
  parallel : Option Nat

/-- `_spans`, and all spans of the tracer. -/
structure OTelTraceSubscriber where
  runs : Dict String RunData
  spans : List Span

namespace OTelTraceSubscriber

/-- `start_span`. The new span is the last one. -/
def startSpan (s : OTelTraceSubscriber) (start : Started) : OTelTraceSubscriber :=
  { s with spans := s.spans ++ [⟨start, []⟩] }

def onSpan (s : OTelTraceSubscriber) (i : Nat) (call : SpanCall) : OTelTraceSubscriber :=
  { s with spans := s.spans.modify i (·.then call) }

def setRun (s : OTelTraceSubscriber) (runId : String) (data : RunData) : OTelTraceSubscriber :=
  { s with runs := s.runs.set runId data }

def onExecutionStarted (s : OTelTraceSubscriber) (runId workflowName : String) :
    OTelTraceSubscriber :=
  let name := if workflowName = "" then "workflow" else workflowName
  (s.startSpan ⟨.workflowRun, none,
      [("workflow.name", .str name), ("workflow.run_id", .str runId)]⟩).setRun runId
    ⟨s.spans.length, .empty, none⟩

def onNodeStarted (s : OTelTraceSubscriber) (runId nodeId nodeType : String) :
    OTelTraceSubscriber :=
  match s.runs.get? runId with
  | none => s
  | some data =>
    (s.startSpan ⟨.node nodeId, some data.workflow,
        [("node.id", .str nodeId), ("node.type", .str nodeType)]⟩).setRun runId
      { data with nodes := data.nodes.set nodeId s.spans.length }

/-- The span of the node, else that of the workflow. -/
def RunData.parent (data : RunData) (nodeId : String) : Nat :=
  (data.nodes.get? nodeId).getD data.workflow

def onLlmCalled (s : OTelTraceSubscriber) (runId nodeId : String)
    (attributes : List (String × Attribute)) : OTelTraceSubscriber :=
  match s.runs.get? runId with
  | none => s
  | some data =>
    (s.startSpan ⟨.chat, some (RunData.parent data nodeId),
      attributes ++ [("node.id", .str nodeId)]⟩).onSpan s.spans.length .ended

def onToolCalled (s : OTelTraceSubscriber) (runId nodeId toolName : String)
    (error : Option String) : OTelTraceSubscriber :=
  match s.runs.get? runId with
  | none => s
  | some data =>
    let i := s.spans.length
    let s := s.startSpan ⟨.tool toolName, some (RunData.parent data nodeId),
      toolAttributes toolName nodeId error⟩
    let s :=
      match error with
      | some error => if error = "" then s else s.onSpan i (.setStatus .error (some error))
      | none => s
    s.onSpan i .ended

def onNodeCompleted (s : OTelTraceSubscriber) (runId nodeId : String) : OTelTraceSubscriber :=
  match s.runs.get? runId with
  | none => s
  | some data =>
    let s := s.setRun runId { data with nodes := data.nodes.erase nodeId }
    match data.nodes.get? nodeId with
    | some i => s.onSpan i .ended
    | none => s

/-- What is set on the span of a workflow at its end. -/
def setTotals (s : OTelTraceSubscriber) (i totalTokens : Nat) (totalCostUsd : Rat)
    (status : String) : OTelTraceSubscriber :=
  let s := s.onSpan i (.setAttribute "workflow.total_tokens" (.nat totalTokens))
  let s := s.onSpan i (.setAttribute "workflow.total_cost_usd" (.rat totalCostUsd))
  let s := s.onSpan i (.setAttribute "workflow.status" (.str status))
  s.onSpan i (if status = "failed" then .setStatus .error (some "Workflow failed")
    else .setStatus .ok none)

def onExecutionCompleted (s : OTelTraceSubscriber) (runId : String) (totalTokens : Nat)
    (totalCostUsd : Rat) (status : String) : OTelTraceSubscriber :=
  match s.runs.get? runId with
  | none => s
  | some data =>
    let status := if status = "" then "completed" else status
    let s := { s with runs := s.runs.erase runId }
    let s := s.setTotals data.workflow totalTokens totalCostUsd status
    let s := data.nodes.entries.foldl (fun s e => s.onSpan e.2 .ended) s
    let s :=
      match data.parallel with
      | some j => s.onSpan j .ended
      | none => s
    s.onSpan data.workflow .ended

def onParallelStarted (s : OTelTraceSubscriber) (runId sourceNode : String)
    (targetNodes : List String) : OTelTraceSubscriber :=
  match s.runs.get? runId with
  | none => s
  | some data =>
    (s.startSpan ⟨.fanOut, some data.workflow, [("parallel.source_node", .str sourceNode),
        ("parallel.target_nodes", .list targetNodes)]⟩).setRun runId
      { data with parallel := some s.spans.length }

def onParallelCompleted (s : OTelTraceSubscriber) (runId : String) : OTelTraceSubscriber :=
  match s.runs.get? runId with
  | none => s
  | some data =>
    match data.parallel with
    | some i => (s.onSpan i .ended).setRun runId { data with parallel := none }
    | none => s

/-- The span of the node, where it has one, else the open fan-out, else the workflow. -/
def onErrorOccurred (s : OTelTraceSubscriber) (runId nodeId errorType errorMessage : String) :
    OTelTraceSubscriber :=
  match s.runs.get? runId with
  | none => s
  | some data =>
    let node := if nodeId = "" then none else data.nodes.get? nodeId
    let target := (node.or data.parallel).getD data.workflow
    (s.onSpan target (.setStatus .error (some errorMessage))).onSpan target
      (.recordException errorType errorMessage)

/-- `on_event`. The durations in the attributes, and the times of the spans, are left out. -/
def onEvent (capture runId : String) (s : OTelTraceSubscriber) : EventBody → OTelTraceSubscriber
  | .executionStarted workflowName _ _ => s.onExecutionStarted runId workflowName
  | .nodeStarted nodeId nodeType => s.onNodeStarted runId nodeId nodeType
  | .agent nodeId (.llmCalled _ model content _ inputTokens outputTokens _ finishReason) =>
    s.onLlmCalled runId nodeId
      (llmEventToAttributes capture model content inputTokens outputTokens finishReason)
  | .agent nodeId (.toolCalled _ toolName _ _ error) => s.onToolCalled runId nodeId toolName error
  | .nodeCompleted nodeId _ _ => s.onNodeCompleted runId nodeId
  | .executionCompleted _ totalTokens totalCostUsd status =>
    s.onExecutionCompleted runId totalTokens totalCostUsd status
  | .parallelStarted sourceNode targetNodes => s.onParallelStarted runId sourceNode targetNodes
  | .parallelCompleted _ _ => s.onParallelCompleted runId
  | .errorOccurred nodeId errorType errorMessage =>
    s.onErrorOccurred runId nodeId errorType errorMessage
  | _ => s

/-- The events of a log, one after the other. -/
def onLog (capture runId : String) (s : OTelTraceSubscriber) (log : List Note) :
    OTelTraceSubscriber :=
  (bodies log).foldl (onEvent capture runId) s

end OTelTraceSubscriber

open OTelTraceSubscriber

/-! ## The spans of calls -/

/-- The name and the attributes of the span for a call of a model or a tool. -/
def callOf (capture : String) : EventBody → Option (SpanName × List (String × Attribute))
  | .agent nodeId (.llmCalled _ model content _ inputTokens outputTokens _ finishReason) =>
    some (.chat, llmEventToAttributes capture model content inputTokens outputTokens finishReason ++
      [("node.id", .str nodeId)])
  | .agent nodeId (.toolCalled _ toolName _ _ error) =>
    some (.tool toolName, toolAttributes toolName nodeId error)
  | _ => none

def Started.isCall (s : Started) : Bool :=
  match s.name with
  | .chat | .tool _ => true
  | _ => false

/-- A workflow span of the run. -/
def IsRoot (runId : String) (s : Started) : Prop :=
  s.name = .workflowRun ∧ ("workflow.run_id", .str runId) ∈ s.attributes

/-- The span at `i` descends from a workflow span of the run. -/
def UnderRoot (runId : String) (l : List Started) (i : Nat) : Prop :=
  ∃ w x, Under Started.parent l i w ∧ l[w]? = some x ∧ IsRoot runId x

/-- Each call has its own span, in the same order, and there are no other spans for calls. -/
def CallsTraced (capture runId : String) (events : List EventBody) (l : List Started) : Prop :=
  List.Forall₂ (fun c e => (e.1.name, e.1.attributes) = c ∧ UnderRoot runId l e.2)
    (events.filterMap (callOf capture)) (picks Started.isCall l)

theorem UnderRoot.mono {runId : String} {l m : List Started} {i : Nat} (h : l <+: m)
    (hi : UnderRoot runId l i) : UnderRoot runId m i := by
  obtain ⟨w, x, hunder, hx, hroot⟩ := hi
  exact ⟨w, x, hunder.mono h, getElem?_of_prefix h hx, hroot⟩

theorem CallsTraced.mono {capture runId : String} {events : List EventBody} {l m : List Started}
    (h : CallsTraced capture runId events l) (hm : l <+: m) :
    List.Forall₂ (fun c e => (e.1.name, e.1.attributes) = c ∧ UnderRoot runId m e.2)
      (events.filterMap (callOf capture)) (picks Started.isCall l) :=
  h.imp fun _ _ he => ⟨he.1, he.2.mono hm⟩

/-- A span that is for no call, and an event that is no call. -/
theorem CallsTraced.other {capture runId : String} {events : List EventBody} {l : List Started}
    {x : Started} (h : CallsTraced capture runId events l) (hx : x.isCall = false) :
    CallsTraced capture runId events (l ++ [x]) := by
  unfold CallsTraced
  rw [picks_concat, if_neg (by rw [hx]; exact nofun), List.append_nil]
  exact h.mono (List.prefix_append _ _)

theorem CallsTraced.call {capture runId : String} {events : List EventBody} {l : List Started}
    {x : Started} {e : EventBody} (h : CallsTraced capture runId events l) (hx : x.isCall = true)
    (he : callOf capture e = some (x.name, x.attributes))
    (hunder : UnderRoot runId (l ++ [x]) l.length) :
    CallsTraced capture runId (events ++ [e]) (l ++ [x]) := by
  unfold CallsTraced
  rw [picks_concat, if_pos hx, List.filterMap_append]
  refine List.rel_append (h.mono (List.prefix_append _ _)) ?_
  simp only [List.filterMap_cons, he, List.filterMap_nil]
  exact .cons ⟨rfl, hunder⟩ .nil

/-! ## A run that goes on -/

def OTelTraceSubscriber.starts (s : OTelTraceSubscriber) : List Started := s.spans.map (·.start)

@[simp] theorem starts_onSpan (s : OTelTraceSubscriber) (i : Nat) (call : SpanCall) :
    (s.onSpan i call).starts = s.starts :=
  map_modify Span.start (f := (·.then call)) (fun _ => rfl) s.spans i

theorem starts_startSpan (s : OTelTraceSubscriber) (start : Started) :
    (s.startSpan start).starts = s.starts ++ [start] := by
  simp [starts, startSpan]

theorem getElem?_onSpan (s : OTelTraceSubscriber) (i j : Nat) (call : SpanCall) :
    (s.onSpan i call).spans[j]? = (s.spans[j]?).map fun x => if i = j then x.then call else x :=
  List.getElem?_modify ..

theorem ends_then (x : Span) (call : SpanCall) :
    (x.then call).ends = x.ends + if call.isEnd then 1 else 0 := by
  simp [Span.ends, Span.then, List.countP_append, List.countP_singleton]

/-- Just the spans at `pending` are not ended, and none was ended twice. -/
def EndsAt (s : OTelTraceSubscriber) (pending : List Nat) : Prop :=
  ∀ i span, s.spans[i]? = some span → span.ends = if i ∈ pending then 0 else 1

theorem EndsAt.congr {s : OTelTraceSubscriber} {l m : List Nat} (h : EndsAt s l)
    (hmem : ∀ i, i ∈ l ↔ i ∈ m) : EndsAt s m := by
  intro i span hspan
  rw [h i span hspan]
  exact if_congr (hmem i) rfl rfl

/-- What is set on a span does not end it. -/
theorem EndsAt.touch {s : OTelTraceSubscriber} {pending : List Nat} (h : EndsAt s pending)
    (i : Nat) {call : SpanCall} (hcall : call.isEnd = false) :
    EndsAt (s.onSpan i call) pending := by
  intro j span hspan
  rw [getElem?_onSpan] at hspan
  obtain ⟨x, hx, rfl⟩ := Option.map_eq_some_iff.mp hspan
  rw [← h j x hx]
  split
  · rw [ends_then, hcall]
    rfl
  · rfl

theorem EndsAt.close {s : OTelTraceSubscriber} {i : Nat} {pending : List Nat}
    (h : EndsAt s (i :: pending)) (hi : i ∉ pending) : EndsAt (s.onSpan i .ended) pending := by
  intro j span hspan
  rw [getElem?_onSpan] at hspan
  obtain ⟨x, hx, rfl⟩ := Option.map_eq_some_iff.mp hspan
  have hx' := h j x hx
  by_cases hj : i = j
  · subst hj
    rw [if_pos List.mem_cons_self] at hx'
    rw [if_pos rfl, ends_then, hx', if_neg hi]
    rfl
  · rw [if_neg hj, hx']
    refine if_congr ?_ rfl rfl
    rw [List.mem_cons]
    exact or_iff_right fun heq => hj heq.symm

/-- The spans that are not ended: that of the workflow, and that of the node that runs. -/
def openSpans (node : Option (String × Nat)) : List Nat := 0 :: node.toList.map (·.2)

/-- The spans of a run up to a point. That of the workflow is the first one. -/
structure Live (capture runId : String) (s : OTelTraceSubscriber) (node : Option (String × Nat))
    (events : List EventBody) : Prop where
  data : ∃ nodes, s.runs.get? runId = some ⟨0, nodes, none⟩ ∧ nodes.entries = node.toList
  root : ∃ x, s.starts[0]? = some x ∧ IsRoot runId x
  child : ∀ e, node = some e → e.2 ≠ 0 ∧ Link Started.parent s.starts e.2 0
  ends : EndsAt s (openSpans node)
  calls : CallsTraced capture runId events s.starts

section

variable {capture runId : String} {s : OTelTraceSubscriber} {node : Option (String × Nat)}
  {events : List EventBody}

theorem length_starts (s : OTelTraceSubscriber) : s.starts.length = s.spans.length :=
  List.length_map _

/-- The open spans are there. -/
theorem Live.lt_length (h : Live capture runId s node events) {i : Nat}
    (hi : i ∈ openSpans node) : i < s.spans.length := by
  rw [← length_starts]
  rcases List.mem_cons.mp hi with rfl | hi
  · obtain ⟨x, hx, -⟩ := h.root
    exact (List.getElem?_eq_some_iff.mp hx).1
  · obtain ⟨e, he, rfl⟩ := List.mem_map.mp hi
    obtain ⟨-, x, hx, -⟩ := h.child e (Option.mem_toList.mp he)
    exact (List.getElem?_eq_some_iff.mp hx).1

/-- A child of an open span is under the workflow. -/
theorem Live.underRoot (h : Live capture runId s node events) {x : Started} {i : Nat}
    (hi : i ∈ openSpans node) (hx : x.parent = some i) :
    UnderRoot runId (s.starts ++ [x]) s.starts.length := by
  have hbegin : s.starts <+: s.starts ++ [x] := List.prefix_append _ _
  have hlink : Link Started.parent (s.starts ++ [x]) s.starts.length i :=
    ⟨x, List.getElem?_concat_length .., hx⟩
  obtain ⟨r, hr, hroot⟩ := h.root
  refine ⟨0, r, ?_, getElem?_of_prefix hbegin hr, hroot⟩
  rcases List.mem_cons.mp hi with rfl | hi
  · exact .single hlink
  · obtain ⟨e, he, rfl⟩ := List.mem_map.mp hi
    obtain ⟨-, hparent⟩ := h.child e (Option.mem_toList.mp he)
    exact .tail (.single hlink) (hparent.mono hbegin)

theorem parent_mem_openSpans {nodes : Dict String Nat} (h : nodes.entries = node.toList)
    (nodeId : String) : RunData.parent ⟨0, nodes, none⟩ nodeId ∈ openSpans node := by
  unfold RunData.parent openSpans
  cases hget : nodes.get? nodeId with
  | none => exact List.mem_cons_self
  | some i =>
    have hentry := (nodes.mem_entries_iff nodeId i).mpr hget
    rw [h] at hentry
    exact List.mem_cons_of_mem _ (List.mem_map.mpr ⟨_, hentry, rfl⟩)

/-- A span that is started and ended for a call. -/
theorem Live.call (h : Live capture runId s node events) {t : OTelTraceSubscriber} {span : Span}
    {e : EventBody} {i : Nat} (hruns : t.runs = s.runs) (hspans : t.spans = s.spans ++ [span])
    (hends : span.ends = 1) (hcall : span.start.isCall = true)
    (he : callOf capture e = some (span.start.name, span.start.attributes))
    (hi : i ∈ openSpans node) (hparent : span.start.parent = some i) :
    Live capture runId t node (events ++ [e]) := by
  have hstarts : t.starts = s.starts ++ [span.start] := by
    unfold starts
    rw [hspans, List.map_append]
    rfl
  have hbegin : s.starts <+: t.starts := ⟨_, hstarts.symm⟩
  constructor
  · rw [hruns]
    exact h.data
  · obtain ⟨x, hx, hroot⟩ := h.root
    exact ⟨x, getElem?_of_prefix hbegin hx, hroot⟩
  · intro e he
    obtain ⟨hne, hlink⟩ := h.child e he
    exact ⟨hne, hlink.mono hbegin⟩
  · intro j span' hspan'
    rw [hspans] at hspan'
    by_cases hj : j < s.spans.length
    · rw [List.getElem?_append_left hj] at hspan'
      exact h.ends j span' hspan'
    · rw [List.getElem?_append_right (by omega), List.getElem?_singleton] at hspan'
      split at hspan'
      · cases hspan'
        rw [if_neg fun hopen => hj (h.lt_length hopen)]
        exact hends
      · cases hspan'
  · rw [hstarts]
    exact h.calls.call hcall he (h.underRoot hi hparent)

/-- An event that is no call, and starts and ends no span. -/
theorem Live.silent (h : Live capture runId s node events) {e : EventBody}
    (he : callOf capture e = none) : Live capture runId s node (events ++ [e]) := by
  refine ⟨h.data, h.root, h.child, h.ends, ?_⟩
  unfold CallsTraced
  rw [List.filterMap_append, List.filterMap_cons, he, List.filterMap_nil, List.append_nil]
  exact h.calls

theorem Live.touch (h : Live capture runId s node events) (i : Nat) {call : SpanCall}
    (hcall : call.isEnd = false) : Live capture runId (s.onSpan i call) node events := by
  have hstarts := starts_onSpan s i call
  exact ⟨h.data, hstarts ▸ h.root, hstarts ▸ h.child, h.ends.touch i hcall, hstarts ▸ h.calls⟩

theorem live_agent (h : Live capture runId s node events) (nodeId : String) (e : AgentEvent) :
    Live capture runId (onEvent capture runId s (.agent nodeId e)) node
      (events ++ [.agent nodeId e]) := by
  obtain ⟨nodes, hdata, hnodes⟩ := h.data
  have hopen := parent_mem_openSpans hnodes nodeId
  cases e with
  | llmCalled agentName model content toolCalls inputTokens outputTokens costUsd finishReason =>
    unfold onEvent
    dsimp only
    unfold onLlmCalled
    rw [hdata]
    exact h.call rfl (modify_last ..) rfl rfl rfl hopen rfl
  | toolCalled agentName toolName arguments result error =>
    unfold onEvent
    dsimp only
    unfold onToolCalled
    rw [hdata]
    dsimp only
    have hplain : ∀ start, ((s.startSpan start).onSpan s.spans.length .ended).spans =
        s.spans ++ [⟨start, [.ended]⟩] := fun start => modify_last ..
    cases error with
    | none => exact h.call rfl (hplain _) rfl rfl rfl hopen rfl
    | some error =>
      dsimp only
      split
      · exact h.call rfl (hplain _) rfl rfl rfl hopen rfl
      · have htwice : ∀ start, (((s.startSpan start).onSpan s.spans.length
            (.setStatus .error (some error))).onSpan s.spans.length .ended).spans =
            s.spans ++ [⟨start, [.setStatus .error (some error), .ended]⟩] := by
          intro start
          unfold startSpan onSpan
          dsimp only
          rw [modify_last, modify_last]
          rfl
        exact h.call rfl (htwice _) rfl rfl rfl hopen rfl
  | securityViolation agentName violationType details => exact h.silent rfl
  | restrictedModeEntered riskScore detected trigger => exact h.silent rfl

theorem live_nodeStarted (h : Live capture runId s none events) (nodeId nodeType : String) :
    Live capture runId (onEvent capture runId s (.nodeStarted nodeId nodeType))
      (some (nodeId, s.spans.length)) (events ++ [.nodeStarted nodeId nodeType]) := by
  have hroot := h.lt_length (List.mem_cons_self : 0 ∈ openSpans none)
  obtain ⟨nodes, hdata, hnodes⟩ := h.data
  obtain rfl : nodes = .empty := Dict.ext_entries hnodes
  unfold onEvent
  dsimp only
  unfold onNodeStarted
  rw [hdata]
  dsimp only
  have hstarts : ∀ start data, ((s.startSpan start).setRun runId data).starts =
      s.starts ++ [start] := fun start _ => starts_startSpan s start
  have hbegin : ∀ start, s.starts <+: s.starts ++ [start] := fun _ => List.prefix_append _ _
  constructor
  · exact ⟨_, Dict.get?_set_self .., rfl⟩
  · obtain ⟨x, hx, hx'⟩ := h.root
    rw [hstarts]
    exact ⟨x, getElem?_of_prefix (hbegin _) hx, hx'⟩
  · rintro e ⟨⟩
    rw [hstarts]
    refine ⟨by dsimp only; omega, ?_⟩
    dsimp only
    rw [← length_starts]
    exact ⟨_, List.getElem?_concat_length .., rfl⟩
  · intro j span hspan
    change (s.spans ++ [_])[j]? = some span at hspan
    have hopen : j ∈ openSpans (some (nodeId, s.spans.length)) ↔ j = 0 ∨ j = s.spans.length := by
      simp [openSpans]
    by_cases hj : j < s.spans.length
    · rw [List.getElem?_append_left hj] at hspan
      rw [h.ends j span hspan]
      refine if_congr ?_ rfl rfl
      rw [hopen]
      simp only [openSpans, Option.toList_none, List.map_nil, List.mem_singleton]
      omega
    · rw [List.getElem?_append_right (by omega), List.getElem?_singleton] at hspan
      split at hspan
      · cases hspan
        rw [if_pos (hopen.mpr (by omega))]
        rfl
      · cases hspan
  · rw [hstarts]
    refine CallsTraced.other ?_ rfl
    exact (h.silent (e := .nodeStarted nodeId nodeType) rfl).calls

theorem live_nodeCompleted {nodeId : String} {i : Nat}
    (h : Live capture runId s (some (nodeId, i)) events) (nodeType : String)
    (stateUpdate : PyDict) :
    Live capture runId (onEvent capture runId s (.nodeCompleted nodeId nodeType stateUpdate)) none
      (events ++ [.nodeCompleted nodeId nodeType stateUpdate]) := by
  obtain ⟨nodes, hdata, hnodes⟩ := h.data
  obtain ⟨hne, -⟩ := h.child _ rfl
  have hget : nodes.get? nodeId = some i := by
    unfold Dict.get?
    rw [hnodes]
    exact List.lookup_cons_self
  unfold onEvent
  dsimp only
  unfold onNodeCompleted
  rw [hdata]
  dsimp only
  rw [hget]
  dsimp only
  have hstarts : ∀ data, ((s.setRun runId data).onSpan i .ended).starts = s.starts :=
    fun data => starts_onSpan (s.setRun runId data) i .ended
  constructor
  · refine ⟨_, Dict.get?_set_self .., ?_⟩
    simp [Dict.erase, hnodes]
  · rw [hstarts]
    exact h.root
  · rintro e ⟨⟩
  · have hpending : EndsAt (s.setRun runId ⟨0, nodes.erase nodeId, none⟩) [i, 0] :=
      EndsAt.congr h.ends fun j => by simp [openSpans, or_comm]
    exact hpending.close (by simpa using hne)
  · rw [hstarts]
    exact (h.silent (e := .nodeCompleted nodeId nodeType stateUpdate) rfl).calls

theorem live_errorOccurred (h : Live capture runId s node events)
    (nodeId errorType errorMessage : String) :
    Live capture runId (onEvent capture runId s (.errorOccurred nodeId errorType errorMessage)) node
      (events ++ [.errorOccurred nodeId errorType errorMessage]) := by
  obtain ⟨nodes, hdata, hnodes⟩ := h.data
  unfold onEvent
  dsimp only
  unfold onErrorOccurred
  rw [hdata]
  exact ((h.touch _ rfl).touch _ rfl).silent rfl

theorem EndsAt.setTotals {pending : List Nat} (h : EndsAt s pending) (i totalTokens : Nat)
    (totalCostUsd : Rat) (status : String) :
    EndsAt (s.setTotals i totalTokens totalCostUsd status) pending := by
  refine ((((h.touch i ?_).touch i ?_).touch i ?_).touch i ?_)
  · rfl
  · rfl
  · rfl
  · split <;> rfl

/-- The last event of a run ends what is not ended. -/
theorem closed_executionCompleted (h : Live capture runId s node events) (finalState : PyDict)
    (totalTokens : Nat) (totalCostUsd : Rat) (status : String) :
    EndsAt (onEvent capture runId s
      (.executionCompleted finalState totalTokens totalCostUsd status)) [] ∧
    (onEvent capture runId s
      (.executionCompleted finalState totalTokens totalCostUsd status)).starts = s.starts := by
  obtain ⟨nodes, hdata, hnodes⟩ := h.data
  have hends : EndsAt { s with runs := s.runs.erase runId } (openSpans node) := h.ends
  unfold onEvent
  dsimp only
  unfold onExecutionCompleted
  rw [hdata]
  dsimp only
  rw [hnodes]
  have htotals := hends.setTotals 0 totalTokens totalCostUsd
    (if status = "" then "completed" else status)
  cases node with
  | none =>
    refine ⟨htotals.close List.not_mem_nil, ?_⟩
    simp only [setTotals, Option.toList_none, List.foldl_nil, starts_onSpan]
    rfl
  | some e =>
    obtain ⟨hne, -⟩ := h.child e rfl
    have hpending := htotals.congr (m := [e.2, 0]) fun j => by simp [openSpans, or_comm]
    refine ⟨(hpending.close (by simpa using hne)).close List.not_mem_nil, ?_⟩
    simp only [setTotals, Option.toList_some, List.foldl_cons, List.foldl_nil, starts_onSpan]
    rfl

end

/-! ## The log of a run -/

section

variable {capture runId : String} {s : OTelTraceSubscriber} {events : List EventBody}
  {G : CompiledGraph} {env : Env}

theorem onLog_append (s : OTelTraceSubscriber) (l m : List Note) :
    onLog capture runId s (l ++ m) = onLog capture runId (onLog capture runId s l) m := by
  unfold onLog
  rw [bodies_append, List.foldl_append]

/-- What is no turn of the main path neither opens nor closes a node. -/
theorem live_quiet {node : Option (String × Nat)} {log : List Note} (hlog : ∀ n ∈ log, Quiet n)
    (h : Live capture runId s node events) :
    Live capture runId (onLog capture runId s log) node (events ++ bodies log) := by
  induction log generalizing s events with
  | nil =>
    change Live capture runId s node (events ++ [])
    rwa [List.append_nil]
  | cons n log ih =>
    obtain ⟨hn, hrest⟩ := List.forall_mem_cons.mp hlog
    cases n with
    | emit e =>
      have hstep : Live capture runId (onEvent capture runId s e.body) node
          (events ++ [e.body]) := by
        obtain ⟨body, numbered⟩ := e
        cases body with
        | agent nodeId e => exact live_agent h nodeId e
        | inputRejected | outputRejected | handoffInitiated => exact h.silent rfl
        | _ => exact hn.elim
      have hall := ih hrest hstep
      rw [List.append_assoc] at hall
      exact hall
    | _ => exact ih hrest h

theorem completeNode_failed {schema : Option Schema} {nodeId : String} {node : GraphNode}
    {state : WorkflowState schema} {ctx : Ctx} {log : List Note} {e : EngineError}
    (h : completeNode nodeId node state ctx = ⟨log, .error e⟩) :
    ∃ nodeLog, (∀ n ∈ nodeLog, Quiet n) ∧
      log = .emit ⟨.nodeStarted nodeId node.typeName, true⟩ :: nodeLog := by
  unfold completeNode emit at h
  rw [Logged.note_bind] at h
  have hquiet : ∀ n ∈ (executeNode schema nodeId node state.data ctx).log, Quiet n :=
    quiet_executeNode.notes
  rcases hx : executeNode schema nodeId node state.data ctx with ⟨nodeLog, e | ⟨update, mode⟩⟩
  · rw [hx, Logged.bind_error _ rfl] at h
    rw [hx] at hquiet
    cases h
    exact ⟨nodeLog, hquiet, rfl⟩
  · rw [hx, Logged.bind_ok _ rfl] at h
    rw [hx] at hquiet
    rcases hs : state.applyAny update with e | s
    · simp only [hs, Logged.ofExcept] at h
      cases h
      exact ⟨nodeLog ++ [], by simpa using hquiet, rfl⟩
    · simp only [hs, Logged.ofExcept] at h
      cases h

theorem live_started (h : Live capture runId s none events) (nodeId nodeType : String)
    {log : List Note} (hlog : ∀ n ∈ log, Quiet n) :
    ∃ node, Live capture runId
      (onLog capture runId s (.emit ⟨.nodeStarted nodeId nodeType, true⟩ :: log))
      (some (nodeId, node))
      (events ++ bodies (.emit ⟨.nodeStarted nodeId nodeType, true⟩ :: log)) := by
  have hall := live_quiet hlog (live_nodeStarted h nodeId nodeType)
  rw [List.append_assoc] at hall
  exact ⟨_, hall⟩

theorem live_completeNode (h : Live capture runId s none events) {nodeId : String}
    {node : GraphNode} {state state' : WorkflowState G.schema} {ctx ctx' : Ctx} {log : List Note}
    (hc : completeNode nodeId node state ctx = ⟨log, .ok (state', ctx')⟩) :
    Live capture runId (onLog capture runId s log) none (events ++ bodies log) := by
  obtain ⟨update, mode, nodeLog, hdone⟩ := completeNode_ok hc
  have hran : ∀ n ∈ nodeLog, Quiet n := quiet_nodeLog hdone.ran
  obtain ⟨i, hstarted⟩ := live_started h nodeId node.typeName hran
  have hcompleted := live_nodeCompleted hstarted node.typeName update
  rw [hdone.wrote, ← List.cons_append, onLog_append, bodies_append, ← List.append_assoc]
  exact hcompleted

/-- A walk leaves a node open only where it fails. -/
theorem live_walk (h : Live capture runId s none events) {L : Loop G.schema} {node : GraphNode}
    {log : List Note} {r : Except EngineError (Ctx × Resolution G.schema)}
    (hw : walk G env L node = ⟨log, r⟩) :
    ∃ left, Live capture runId (onLog capture runId s log) left (events ++ bodies log) ∧
      ∀ p, r = .ok p → left = none := by
  have hway : ∀ (ctx : Ctx) (state : WorkflowState G.schema), ∀ n ∈
      (resolveNext G env ctx L.current.text state.data state).log, Quiet n :=
    fun _ _ => quiet_resolveNext
  cases r with
  | error e =>
    rcases Logged.of_bind_error hw with hc | ⟨l, ⟨state, ctx⟩, m, hc, hrest, rfl⟩
    · obtain ⟨nodeLog, hquiet, rfl⟩ := completeNode_failed hc
      obtain ⟨i, hlive⟩ := live_started h _ _ hquiet
      exact ⟨_, hlive, nofun⟩
    · rcases Logged.of_bind_error hrest with hr | ⟨m', r, n, hr, hp, rfl⟩
      · have hquiet := hway ctx state
        rw [hr] at hquiet
        have hlive := live_quiet hquiet (live_completeNode h hc)
        rw [onLog_append, bodies_append, ← List.append_assoc]
        exact ⟨none, hlive, nofun⟩
      · cases hp
  | ok p =>
    obtain ⟨ctx, r⟩ := p
    obtain ⟨state, l, m, hc, hr, rfl⟩ := walk_ok hw
    have hquiet := hway ctx state
    rw [hr] at hquiet
    have hlive := live_quiet hquiet (live_completeNode h hc)
    rw [onLog_append, bodies_append, ← List.append_assoc]
    exact ⟨none, hlive, fun _ _ => rfl⟩

theorem live_path {L₀ L L' : Loop G.schema} {logs : List (List Note)}
    (hrun : Run (loopMachine G env L₀) L logs L') (h : Live capture runId s none events) :
    Live capture runId (onLog capture runId s logs.flatten) none
      (events ++ bodies logs.flatten) := by
  induction hrun generalizing s events with
  | stay L =>
    change Live capture runId s none (events ++ [])
    rwa [List.append_nil]
  | step first _ ih =>
    obtain ⟨node, ctx, r, -, -, -, hw, -⟩ := turn_next first.2.2
    obtain ⟨left, hlive, hleft⟩ := live_walk h hw
    obtain rfl := hleft _ rfl
    rw [List.flatten_cons, onLog_append, bodies_append, ← List.append_assoc]
    exact ih hlive

/-- The loop leaves a node open only where it fails. -/
theorem live_runLoop (env : Env) (h : Live capture runId s none events) (L : Loop G.schema) :
    ∃ left, Live capture runId (onLog capture runId s (runLoop G env L).log) left
      (events ++ bodies (runLoop G env L).log) := by
  obtain ⟨logs, L', log, ending, hrun, hlast⟩ := exists_path env L L
  have hpath := live_path hrun h
  rw [runLoop_path hrun hlast, onLog_append, bodies_append, ← List.append_assoc]
  have hnil : Live capture runId (onLog capture runId (onLog capture runId s logs.flatten) []) none
      (events ++ bodies logs.flatten ++ bodies []) := by
    change Live capture runId _ none (_ ++ [])
    rwa [List.append_nil]
  cases hlast with
  | done => exact ⟨none, hnil⟩
  | outOfTurns => exact ⟨none, hnil⟩
  | failed hend hturns hturn =>
    rcases turn_failed hturn with ⟨-, rfl, -⟩ | ⟨node, -, -, hw⟩
    · exact ⟨none, hnil⟩
    · obtain ⟨left, hlive, -⟩ := live_walk hpath hw
      exact ⟨left, hlive⟩
  | paused hend hturns hturn =>
    obtain ⟨node, -, ⟨-, -, rfl⟩ | ⟨-, -, ctx, r, l, hw, -, rfl⟩⟩ := turn_paused hturn
    · exact ⟨none, hpath.silent rfl⟩
    · obtain ⟨left, hlive, -⟩ := live_walk hpath hw
      rw [onLog_append, bodies_append, ← List.append_assoc]
      exact ⟨left, hlive.silent rfl⟩

/-! ## A call of `run` -/

/-- The subscriber of a new `run`, where no span was started before. -/
def OTelTraceSubscriber.new : OTelTraceSubscriber := ⟨.empty, []⟩

theorem live_started_run (input : RunInput) :
    Live capture runId (onLog capture runId .new [startedNote G input]) none
      (bodies [startedNote G input]) := by
  refine ⟨⟨.empty, Dict.get?_set_self .., rfl⟩, ⟨_, rfl, rfl, by simp⟩, nofun, ?_, .nil⟩
  intro i span hspan
  cases i with
  | zero =>
    cases hspan
    rfl
  | succ i => cases hspan

/-- The spans of a run that is not over: that of the workflow is not ended. -/
def Open (s : OTelTraceSubscriber) : Prop := ∃ span ∈ s.spans, span.ends = 0

theorem Live.open {node : Option (String × Nat)} (h : Live capture runId s node events) :
    Open s := by
  have hlength := h.lt_length (List.mem_cons_self : 0 ∈ openSpans node)
  refine ⟨s.spans[0], List.getElem_mem hlength, ?_⟩
  have hopen : 0 ∈ openSpans node := List.mem_cons_self
  rw [h.ends 0 _ (List.getElem?_eq_getElem hlength), if_pos hopen]

/-- Every span was ended just once. -/
def AllEnded (spans : List Span) : Prop := ∀ span ∈ spans, span.ends = 1

theorem not_allEnded (h : Open s) : ¬ AllEnded s.spans := by
  obtain ⟨span, hspan, hends⟩ := h
  intro hall
  rw [hall span hspan] at hends
  cases hends

theorem allEnded_of_endsAt (h : EndsAt s []) : AllEnded s.spans := by
  intro span hspan
  obtain ⟨i, hi⟩ := List.getElem?_of_mem hspan
  exact h i span hi

/-- The last event of a run, at any point of it. -/
theorem closed_log {node : Option (String × Nat)} (h : Live capture runId s node events)
    (finalState : PyDict) (totalTokens : Nat) (totalCostUsd : Rat) (status : String) :
    CallsTraced capture runId
        (events ++ [.executionCompleted finalState totalTokens totalCostUsd status])
        (onEvent capture runId s
          (.executionCompleted finalState totalTokens totalCostUsd status)).starts ∧
      AllEnded (onEvent capture runId s
        (.executionCompleted finalState totalTokens totalCostUsd status)).spans := by
  obtain ⟨hends, hstarts⟩ :=
    closed_executionCompleted h finalState totalTokens totalCostUsd status
  refine ⟨?_, allEnded_of_endsAt hends⟩
  rw [hstarts]
  exact (h.silent (e := .executionCompleted finalState totalTokens totalCostUsd status) rfl).calls

/-- The run starts from a valid state and does not end at a pause. -/
def ComesToItsEnd (G : CompiledGraph) (env : Env) (input : RunInput) : Prop :=
  (∃ state, WorkflowState.ofDict G.schema input.initialState = .ok state) ∧
    ∀ p, (run G env input).outcome ≠ .interrupted p

theorem traced_run (G : CompiledGraph) (capture runId : String) (env : Env) (input : RunInput) :
    CallsTraced capture runId (bodies (run G env input).log)
      (onLog capture runId .new (run G env input).log).starts ∧
    (AllEnded (onLog capture runId .new (run G env input).log).spans ↔
      ComesToItsEnd G env input) := by
  have hstarted : Live capture runId (onLog capture runId .new [startedNote G input]) none
    (bodies [startedNote G input]) := live_started_run input
  cases hstate : WorkflowState.ofDict G.schema input.initialState with
  | error e =>
    have hend : ¬ ComesToItsEnd G env input := by
      rintro ⟨⟨state, hvalid⟩, -⟩
      rw [hstate] at hvalid
      cases hvalid
    rw [run_invalid G env input hstate]
    exact ⟨hstarted.calls, iff_of_false (not_allEnded hstarted.open) hend⟩
  | ok state =>
    obtain ⟨left, hlive⟩ := live_runLoop env hstarted (runStart G input state)
    have hrun := run_valid G env input hstate
    have houtcome := outcome_finish env true [startedNote G input]
      (runLoop G env (runStart G input state))
    rw [← hrun] at houtcome
    have hcomes : ComesToItsEnd G env input ↔
        ∀ p, (runLoop G env (runStart G input state)).ending.outcome ≠ .interrupted p := by
      unfold ComesToItsEnd
      rw [houtcome]
      exact and_iff_right ⟨state, hstate⟩
    rw [hcomes, hrun]
    rw [← bodies_append, ← onLog_append] at hlive
    cases hending : (runLoop G env (runStart G input state)).ending with
    | completed final =>
      simp only [finish, hending]
      rw [bodies_append, onLog_append]
      obtain ⟨hcalls, hall⟩ := closed_log hlive final _ _ "completed"
      exact ⟨hcalls, iff_of_true hall fun _ hp => by cases hp⟩
    | interrupted p =>
      simp only [finish, hending]
      exact ⟨hlive.calls, iff_of_false (not_allEnded hlive.open) fun h => h p rfl⟩
    | failed nodeId e =>
      simp only [finish, hending]
      rw [bodies_append, onLog_append]
      obtain ⟨hcalls, hall⟩ :=
        closed_log (live_errorOccurred hlive nodeId e.type e.message) .empty _ _ "failed"
      rw [List.append_assoc] at hcalls
      exact ⟨hcalls, iff_of_true hall fun _ hp => by cases hp⟩

end

/-! ## A run and its resumes -/

/-- The record of a run, the spans that were started in it, and the events of its calls. -/
structure TracedRun where
  record : RunRecord
  spans : List Span
  emitted : List EventBody
  called : Bool

/-- A `run` comes first, and then any resumes. -/
inductive Next : Bool → Call → Prop
  | run (env : Env) (input : RunInput) : Next false (.run env input)
  | resume (env : Env) (stateUpdates : PyDict) : Next true (.resume env stateUpdates)

/-- The spans after a call. Only `run` puts a subscriber on its bus. -/
def spansAfter (capture runId : String) (spans : List Span) (log : List Note) : Call → List Span
  | .run .. => (onLog capture runId ⟨.empty, spans⟩ log).spans
  | _ => spans

def TracedRun.after (G : CompiledGraph) (capture runId : String) (s : TracedRun) (call : Call) :
    TracedRun :=
  let x := call.exec G runId s.record
  ⟨x.1, spansAfter capture runId s.spans x.2.1 call, s.emitted ++ bodies x.2.1, true⟩

def traceMachine (G : CompiledGraph) (capture runId : String) : Machine TracedRun Call where
  init s := s.spans = [] ∧ s.emitted = [] ∧ s.called = false
  step s call t := Next s.called call ∧ t = s.after G capture runId call

/-- All spans are ended, and all calls of models and tools have theirs. -/
structure Traced (capture runId : String) (s : TracedRun) : Prop where
  ended : AllEnded s.spans
  calls : CallsTraced capture runId s.emitted (s.spans.map (·.start))

def isCall : EventBody → Bool
  | .agent _ (.llmCalled ..) | .agent _ (.toolCalled ..) => true
  | _ => false

/-- `run` comes to its end, and a resume calls no model and no tool. -/
def InView (G : CompiledGraph) (runId : String) (s : TracedRun) : Call → Prop
  | .run env input => ComesToItsEnd G env { input with context := { input.context with runId } }
  | call => ∀ e ∈ bodies (call.exec G runId s.record).2.1, isCall e = false

section

variable {G : CompiledGraph} {capture runId : String}

theorem callOf_eq_none_iff (e : EventBody) : callOf capture e = none ↔ isCall e = false := by
  cases e with
  | agent nodeId e => cases e <;> simp [callOf, isCall]
  | _ => simp [callOf, isCall]

/-- Events with no call among them leave the spans right, and any call does not. -/
theorem callsTraced_append {events : List EventBody} {l : List Started}
    (h : CallsTraced capture runId events l) (new : List EventBody) :
    CallsTraced capture runId (events ++ new) l ↔ ∀ e ∈ new, isCall e = false := by
  have hnew : new.filterMap (callOf capture) = [] ↔ ∀ e ∈ new, isCall e = false := by
    rw [List.filterMap_eq_nil_iff]
    exact forall₂_congr fun e _ => callOf_eq_none_iff e
  rw [← hnew]
  unfold CallsTraced at *
  rw [List.filterMap_append]
  constructor
  · intro hall
    have hlength := hall.length_eq
    rw [List.length_append, h.length_eq] at hlength
    exact List.eq_nil_of_length_eq_zero (by omega)
  · intro hnil
    rwa [hnil, List.append_nil]

theorem step_det (s : TracedRun) (call : Call) (t u : TracedRun)
    (ht : (traceMachine G capture runId).step s call t)
    (hu : (traceMachine G capture runId).step s call u) : t = u :=
  ht.2.trans hu.2.symm

/-- What resumes add: events, and no spans. -/
theorem resumes_run {s t : TracedRun} {calls : List Call}
    (h : Run (traceMachine G capture runId) s calls t) (hs : s.called = true) :
    t.spans = s.spans ∧ ∃ new, t.emitted = s.emitted ++ new ∧
      ((∀ e ∈ new, isCall e = false) ↔
        Run ((traceMachine G capture runId).restrict (InView G runId)) s calls t) := by
  induction h with
  | stay s => exact ⟨rfl, [], (List.append_nil _).symm, iff_of_true nofun (.stay s)⟩
  | @step s u t call calls first rest ih =>
    have hfirst := first
    obtain ⟨hnext, rfl⟩ := first
    obtain ⟨hspans, new, hnew, hiff⟩ := ih rfl
    rw [hs] at hnext
    cases hnext with
    | resume env stateUpdates =>
      refine ⟨hspans, _, hnew.trans (List.append_assoc ..), ?_⟩
      rw [List.forall_mem_append, hiff, Run.restrict_cons step_det hfirst]
      rfl

/-- Every span of a run is ended, and every call has its span, just when `run` comes to its end
and the resumes call no model and no tool. -/
theorem traced_iff {s t : TracedRun} {calls : List Call}
    (hs : (traceMachine G capture runId).init s)
    (h : Run (traceMachine G capture runId) s calls t) :
    Traced capture runId t ↔
      Run ((traceMachine G capture runId).restrict (InView G runId)) s calls t := by
  obtain ⟨hspans, hemitted, hcalled⟩ := hs
  cases h with
  | stay =>
    refine iff_of_true ⟨?_, ?_⟩ (.stay s)
    · rw [hspans]
      exact nofun
    · rw [hspans, hemitted]
      exact .nil
  | @step _ u _ call calls first rest =>
    have hfirst := first
    obtain ⟨hnext, rfl⟩ := first
    rw [hcalled] at hnext
    cases hnext with
    | run env input =>
      obtain ⟨hcalls, hall⟩ := traced_run G capture runId env
        { input with context := { input.context with runId } }
      have hafter : (s.after G capture runId (.run env input)).spans =
          (onLog capture runId .new (run G env
            { input with context := { input.context with runId } }).log).spans := by
        unfold TracedRun.after spansAfter
        rw [hspans]
        rfl
      have hevents : (s.after G capture runId (.run env input)).emitted =
          bodies (run G env { input with context := { input.context with runId } }).log := by
        unfold TracedRun.after
        rw [hemitted]
        rfl
      obtain ⟨hsame, new, hnew, hiff⟩ := resumes_run rest rfl
      rw [Run.restrict_cons step_det hfirst, ← hiff]
      rw [hafter] at hsame
      rw [hevents] at hnew
      rw [← hsame] at hall
      have hcalls' := callsTraced_append hcalls new
      unfold starts at hcalls'
      rw [← hsame, ← hnew] at hcalls'
      constructor
      · rintro ⟨hended, htraced⟩
        exact ⟨hall.mp hended, hcalls'.mp htraced⟩
      · rintro ⟨hend, hquiet⟩
        exact ⟨hall.mpr hend, hcalls'.mpr hquiet⟩

end

/-! ## A poem, and a poem that waits -/

/-- An agent that calls a model and a tool. -/
def poet : AgentNode := { answering "poet" "a poem" with
  run := fun _ ctx => ⟨[(.llmCalled "poet" "gpt-4o" none [] 9 5 0 "stop", true),
      (.toolCalled "poet" "rhyme" .empty (some "moon") none, true)],
    ctx.restrictedMode, .ok ⟨"poet", "a poem", none, [], .empty⟩⟩ }

def poem (interruptBefore : Bool) : CompiledGraph where
  nodes := Dict.ofList [("write", .agent { poet with interruptBefore })]
  edges := []
  entryPoint := "write"
  schema := none
  maxTurns := 50
  name := ""
  handoffEdges := []

def untraced : TracedRun := ⟨.empty, [], [], false⟩

def written : TracedRun :=
  (untraced.after (poem false) "" "run" (.run inOrder (plainInput .empty))).after (poem false) ""
    "run" (.resume inOrder .empty)

def waiting : TracedRun := untraced.after (poem true) "" "run" (.run inOrder (plainInput .empty))

def approved : TracedRun := waiting.after (poem true) "" "run" (.resume inOrder .empty)

/-- The calls of a run that comes to its end are traced. A resume finds no checkpoint then. -/
theorem a_poem_is_traced : Traced "" "run" written := by
  have hrun : Run ((traceMachine (poem false) "" "run").restrict (InView (poem false) "run"))
      untraced [.run inOrder (plainInput .empty), .resume inOrder .empty] written := by
    refine .step ⟨⟨.run _ _, rfl⟩, ⟨_, rfl⟩, ?_⟩ (.step ⟨⟨.resume _ _, rfl⟩, ?_⟩ (.stay _))
    · rintro p ⟨⟩
    · exact nofun
  exact (traced_iff ⟨rfl, rfl, rfl⟩ hrun.of_restrict).mpr hrun

/-- A run that pauses leaves the span of its workflow open, and the calls of the resume after it
have no spans. -/
theorem a_poem_that_waits_is_not_traced :
    Run (traceMachine (poem true) "" "run") untraced
      [.run inOrder (plainInput .empty), .resume inOrder .empty] approved ∧
    (∃ span ∈ waiting.spans, span.ends = 0) ∧
    (approved.emitted.filter isCall).length = 2 ∧
    picks Started.isCall (approved.spans.map (·.start)) = [] ∧ ¬ Traced "" "run" approved := by
  have hopen : ∃ span ∈ approved.spans, span.ends = 0 := by decide +kernel
  refine ⟨.step ⟨.run _ _, rfl⟩ (.step ⟨.resume _ _, rfl⟩ (.stay _)), by decide +kernel,
    by decide +kernel, by decide +kernel, fun h => ?_⟩
  obtain ⟨span, hspan, hends⟩ := hopen
  rw [h.ended span hspan] at hends
  cases hends

end orchestra.tracing
