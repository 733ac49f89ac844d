-- Which questions each part of an agent asks, for any class of questions that
-- has them all.
import Orchestra.SelfCheck

open dicts programs orchestra.events orchestra.costs

namespace orchestra.questions

open orchestra.agents orchestra.thoughts orchestra.selfcheck
open Program

/-! ## The agent and its tools -/

/-- What one call of a model is charged for. -/
structure Charge where
  model : String
  usage : agent.TokenUsage

def Charge.tokens (charge : Charge) : Nat := charge.usage.inputTokens + charge.usage.outputTokens

/-- The charge that an event of a call carries. -/
def carried? : EventBody → Option Charge
  | .agent _ (.llmCalled _ model _ _ inputTokens outputTokens costUsd _) =>
    some ⟨model, inputTokens, outputTokens, costUsd⟩
  | _ => none

variable {a : BaseAgent} {ctx : Context} {ok : Ask → Prop}

/-- The class has both halves of an event. -/
def Tells (ok : Ask → Prop) (body : EventBody) : Prop := ok (.append body) ∧ ok (.announce body)

theorem asks_emit {body : EventBody} (h : Tells ok body) : Asks ok (emit ctx body) := by
  unfold emit
  split
  · refine asks_bind (asks_query h.1) (fun stored => ?_)
    refine asks_bind (asks_ofExcept stored) (fun _ => ?_)
    exact asks_query h.2
  · exact asks_pure ()

theorem asks_emitLive {e : AgentEvent} (h : Tells ok (.agent ctx.nodeId e)) :
    Asks ok (emitLive ctx e) := by
  unfold emitLive
  split
  · exact asks_pure ()
  · exact asks_emit h

theorem asks_complete {site : Site} {request : Request} (h : ok (.complete site [request])) :
    Asks ok (complete site request) :=
  asks_bind (asks_query h) (fun _ => asks_ofExcept _)

theorem asks_gather {site : Site} {requests : List Request} (h : ok (.complete site requests)) :
    Asks ok (gather site requests) :=
  asks_bind (asks_query h) (fun _ => asks_pure _)

/-- The class has what the tools of an agent need: their events, and the run of
each tool that the list of the agent allows. -/
structure ToolQuestions (ok : Ask → Prop) (a : BaseAgent) (ctx : Context) : Prop where
  tells : ∀ body, carried? body = none → Tells ok body
  execute : ∀ toolName arguments, toolName ∈ a.tools → a.authorizes ctx toolName = .ok true →
    ok (.execute toolName arguments)

theorem asks_executeTool (h : ToolQuestions ok a ctx) (call : agent.ToolCall) :
    Asks ok (executeTool a ctx call) := by
  unfold executeTool
  split
  · exact asks_pure _
  split
  · rename_i hlist
    split
    · rename_i htool
      refine asks_bind (asks_query (h.execute _ _ htool hlist)) (fun answer => ?_)
      split
      · exact asks_pure _
      · exact asks_pure _
    · exact asks_pure _
  · exact asks_bind (asks_emit (h.tells _ rfl)) (fun _ => asks_pure _)

theorem asks_runTools (h : ToolQuestions ok a ctx) (calls : List agent.ToolCall) :
    Asks ok (runTools a ctx calls) := by
  induction calls with
  | nil => exact asks_pure _
  | cons call rest ih =>
    unfold runTools
    refine asks_bind (asks_executeTool h call) (fun result => ?_)
    refine asks_bind (asks_emitLive (h.tells _ rfl)) (fun _ => ?_)
    exact asks_bind ih (fun _ => asks_pure _)

theorem asks_enforceBudget (h : ok .totals) : Asks ok (enforceBudget ctx) := by
  unfold enforceBudget
  split
  · exact asks_pure ()
  · refine asks_bind ?_ (fun totals => asks_ofExcept _)
    unfold currentTotals
    split
    · exact asks_query h
    · exact asks_pure _

/-- The class has what the loop of an agent needs. -/
structure LoopQuestions (ok : Ask → Prop) (a : BaseAgent) (ctx : Context) : Prop where
  totals : ok .totals
  complete : ∀ request, ok (.complete .loop [request])
  tells : ∀ body, Tells ok body
  execute : ∀ toolName arguments, 0 < a.maxIterations → toolName ∈ a.tools →
    a.authorizes ctx toolName = .ok true → ok (.execute toolName arguments)

theorem asks_think (h : LoopQuestions ok a ctx) (emitPartialOnMaxIterations : Bool) (left : Nat)
    (hleft : left ≤ a.maxIterations) (messages : List Value) (usage : TokenUsage)
    (records : List ToolCallRecord) :
    Asks ok (think a ctx emitPartialOnMaxIterations left messages usage records) := by
  induction left generalizing messages usage records with
  | zero =>
    unfold think
    split
    · exact asks_pure _
    · exact asks_fail _
  | succ left ih =>
    have htools : ToolQuestions ok a ctx :=
      ⟨fun body _ => h.tells body, fun toolName arguments => h.execute toolName arguments (by omega)⟩
    unfold think
    refine asks_bind (asks_enforceBudget h.totals) (fun _ => ?_)
    refine asks_bind (asks_complete (h.complete _)) (fun response => ?_)
    refine asks_bind (asks_emitLive (h.tells _)) (fun _ => ?_)
    split
    · exact asks_pure _
    · refine asks_bind (asks_runTools htools _) (fun made => ?_)
      exact ih (by omega) _ _ _

theorem asks_run (h : LoopQuestions ok a ctx) (input : Value) : Asks ok (a.run input ctx false) := by
  unfold BaseAgent.run
  split
  · exact asks_think h _ _ (Nat.le_refl _) _ _ _
  · exact asks_fail _

/-! ## Guardrails -/

theorem asks_runChain (h : ∀ g text, ok (.validate g text)) (chain : List Validator) (text : String)
    (violations : List GuardrailViolation) : Asks ok (runChain chain text violations) := by
  induction chain generalizing text violations with
  | nil => exact asks_pure _
  | cons g rest ih =>
    unfold runChain
    refine asks_bind (asks_query (h g text)) (fun answer => ?_)
    refine asks_bind (asks_ofExcept answer) (fun result => ?_)
    split
    · exact ih _ _
    · split
      · exact asks_pure _
      · exact asks_pure _
      · exact asks_fail _
      · exact ih _ _
      · exact ih _ _

theorem asks_attempts (hchain : ∀ g text, ok (.validate g text)) (g : GuardedAgent) (input : Value)
    (left : Nat) (h : 0 < left → LoopQuestions ok g.toBaseAgent ctx) :
    Asks ok (attempts g ctx input left) := by
  induction left with
  | zero => exact asks_fail _
  | succ left ih =>
    have hloop := h (Nat.succ_pos left)
    unfold attempts
    refine asks_bind (asks_run hloop input) (fun result => ?_)
    split
    · exact asks_pure _
    · refine asks_bind (asks_runChain hchain _ _ _) (fun verdict => ?_)
      split
      · exact asks_pure _
      · split
        · exact ih (fun _ => hloop)
        · exact asks_pure _

theorem asks_guarded (hchain : ∀ g text, ok (.validate g text)) (g : GuardedAgent) (input : Value)
    (h : 0 ≤ g.maxRetries → LoopQuestions ok g.toBaseAgent ctx) : Asks ok (g.run input ctx) := by
  have hleft : 0 < (1 + g.maxRetries).toNat → LoopQuestions ok g.toBaseAgent ctx :=
    fun hpos => h (by omega)
  unfold GuardedAgent.run
  split
  · exact asks_attempts hchain g _ _ hleft
  · refine asks_bind (asks_ofExcept _) (fun text => ?_)
    refine asks_bind (asks_runChain hchain _ _ _) (fun verdict => ?_)
    split
    · exact asks_attempts hchain g _ _ hleft
    · exact asks_pure _

/-! ## The checker -/

/-- The class has what the checker needs. -/
structure CheckQuestions (ok : Ask → Prop) : Prop where
  sampling : ∀ requests, ok (.complete .sampling requests)
  judging : ∀ requests, ok (.complete .judging requests)
  sentences : ∀ text, ok (.sentences text)
  scores : ∀ sentences samples, ok (.scores sentences samples)

theorem asks_score (h : CheckQuestions ok) (c : SelfChecker) (model : Option String)
    (sentences samples : List String) : Asks ok (c.score model sentences samples) := by
  have hllm : Asks ok (SelfChecker.scoreLlm model samples sentences) := by
    induction sentences with
    | nil => exact asks_pure _
    | cons sentence rest ih =>
      unfold SelfChecker.scoreLlm
      refine asks_bind (asks_gather (h.judging _)) (fun answers => ?_)
      exact asks_bind ih (fun scores => asks_pure _)
  unfold SelfChecker.score
  split
  · exact hllm
  · exact asks_bind (asks_query (h.scores _ _)) (fun answer => asks_ofExcept answer)

theorem asks_check (h : CheckQuestions ok) (c : SelfChecker) (model : Option String)
    (response : String) (messages : List Value) : Asks ok (c.check model response messages) := by
  unfold SelfChecker.check
  refine asks_bind (asks_query (h.sentences _)) (fun answer => ?_)
  refine asks_bind (asks_ofExcept answer) (fun split => ?_)
  dsimp only
  split
  · exact asks_pure _
  unfold SelfChecker.samplePassages
  refine asks_bind (asks_bind (asks_gather (h.sampling _)) (fun answers => asks_pure _))
    (fun drawn => ?_)
  split
  · exact asks_pure _
  · refine asks_bind (asks_score h c model _ _) (fun scores => ?_)
    split
    · exact asks_fail _
    · exact asks_pure _

theorem asks_selfCheck (h : CheckQuestions ok) (a : SelfCheckAgent) (input : Value)
    (hloop : LoopQuestions ok a.toBaseAgent ctx) : Asks ok (a.run input ctx) := by
  have hchecked : ∀ messages, Asks ok (a.checkedRun input ctx messages) := by
    intro messages
    unfold SelfCheckAgent.checkedRun
    refine asks_bind (asks_run hloop input) (fun result => ?_)
    exact asks_bind (asks_check h _ _ _ _) (fun sc => asks_pure _)
  unfold SelfCheckAgent.run
  refine asks_bind (asks_ofExcept _) (fun messages => ?_)
  refine asks_bind (hchecked messages) (fun first => ?_)
  split
  · refine asks_bind (hchecked messages) (fun retry => ?_)
    split
    · exact asks_pure _
    · exact asks_pure _
  · exact asks_pure _

/-! ## The tree of thoughts -/

/-- The class has what the search of a tree needs. -/
structure SearchQuestions (ok : Ask → Prop) : Prop where
  generating : ∀ requests, ok (.complete .generating requests)
  evaluating : ∀ requests, ok (.complete .evaluating requests)

section

variable (t : TreeOfThoughtsAgent) (isDigit : Char → Bool) (problem : String)

theorem asks_evaluateAll (h : SearchQuestions ok) (candidates : List ThoughtNode) :
    Asks ok (evaluateAll t problem candidates) :=
  asks_bind (asks_gather (h.evaluating _)) (fun _ => asks_pure _)

theorem asks_bfsFrom (h : SearchQuestions ok) (left : Nat) (frontier : List ThoughtNode)
    (usage : TokenUsage) : Asks ok (bfsFrom t isDigit problem left frontier usage) := by
  induction left generalizing frontier usage with
  | zero => exact asks_pure _
  | succ left ih =>
    unfold bfsFrom
    refine asks_bind (asks_gather (h.generating _)) (fun answers => ?_)
    dsimp only
    split
    · exact asks_pure _
    refine asks_bind (asks_evaluateAll t problem h _) (fun evaluated => ?_)
    split
    · exact asks_pure _
    · split
      · exact asks_pure _
      · exact ih _ _

theorem asks_dfsFrom (h : SearchQuestions ok) (left : Nat) (node : ThoughtNode)
    {rest : Option ThoughtNode → TokenUsage → Code (Option ThoughtNode × TokenUsage)}
    (hrest : ∀ best s, Asks ok (rest best s)) (best : Option ThoughtNode)
    (usage : TokenUsage) : Asks ok (dfsFrom t isDigit problem left node rest best usage) := by
  induction left generalizing node rest best usage with
  | zero => exact hrest _ _
  | succ left ih =>
    unfold dfsFrom
    split
    · exact hrest _ _
    refine asks_bind (asks_complete (h.generating _)) (fun response => ?_)
    refine asks_bind (asks_evaluateAll t problem h _) (fun evaluated => ?_)
    dsimp only
    split
    · exact asks_pure _
    · generalize (List.mergeSort _ _ : List ThoughtNode) = pushed
      have hstack : ∀ best s, Asks ok
          (pushed.foldl (fun rest child => dfsFrom t isDigit problem left child rest) rest best s) := by
        induction pushed generalizing rest with
        | nil => exact hrest
        | cons child pushed ihp => exact ihp (fun best s => ih child hrest best s)
      exact hstack none _

theorem asks_tree (h : SearchQuestions ok) (input : Value) : Asks ok (t.run input ctx) := by
  unfold TreeOfThoughtsAgent.run
  split
  · refine asks_bind (asks_ofExcept _) (fun problem => ?_)
    refine asks_bind ?_ (fun found => asks_pure _)
    unfold search
    split
    · exact asks_bfsFrom t _ problem h _ _ _
    · exact asks_dfsFrom t _ problem h _ _ (fun _ _ => asks_pure _) _ _
  · exact asks_fail _

end

end orchestra.questions
