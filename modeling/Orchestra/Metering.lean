-- What a run of `run()` knows of the calls of its agents: the events that the
-- bus announces, the totals of the aggregator and the usage in each result.
import Orchestra.Questions

open dicts programs machine orchestra.events orchestra.costs

namespace orchestra.metering

open orchestra.agents orchestra.thoughts orchestra.selfcheck orchestra.questions

/-! ## The agents of a run -/

/-- The agents of the library. -/
inductive Agent
  | base (a : BaseAgent)
  | guarded (g : GuardedAgent)
  | selfCheck (a : SelfCheckAgent)
  | tree (a : TreeOfThoughtsAgent)

/-- `agent.run(input, context)` -/
def Agent.run : Agent → Value → Context → Code AgentResult
  | .base a, input, ctx => a.run input ctx false
  | .guarded g, input, ctx => g.run input ctx
  | .selfCheck a, input, ctx => a.run input ctx
  | .tree a, input, ctx => a.run input ctx

/-- The agent whose loop calls the model and runs the tools. -/
def Agent.toBase : Agent → BaseAgent
  | .base a => a
  | .guarded g => g.toBaseAgent
  | .selfCheck a => a.toBaseAgent
  | .tree t => t.toBaseAgent

/-- A context that the engine hands to an agent: its own, with what it notes
there from turn to turn, or that of a branch. -/
inductive Handed (ctx : Context) : Context → Prop
  | turn (nodeId : String) (turnNumber : Nat) (restrictedMode : Bool)
    (loopCounters : edges.Counters) (nodeExecutionOrder : List String) (moment : nodes.Moment) :
    Handed ctx { ctx with
      nodeId, turnNumber, restrictedMode, loopCounters, nodeExecutionOrder, moment }
  | branch {c : Context} (above : Handed ctx c) (nodeId : String) (i : Nat) :
    Handed ctx (c.cloneForBranch nodeId i)

/-- What every context of a run has from the one that the run was given. -/
theorem Handed.same {ctx c : Context} (h : Handed ctx c) :
    c.hasBus = ctx.hasBus ∧ c.replayEvents = ctx.replayEvents ∧ c.hasProvider = ctx.hasProvider ∧
      c.budgetPolicy = ctx.budgetPolicy ∧ c.costAggregator = ctx.costAggregator ∧
      c.ucanToken = ctx.ucanToken ∧ c.config = ctx.config ∧ c.runId = ctx.runId := by
  induction h with
  | turn => exact ⟨rfl, rfl, rfl, rfl, rfl, rfl, rfl, rfl⟩
  | branch above nodeId i ih => exact ih

/-- A call of an agent. -/
structure Job where
  agent : Agent
  input : Value
  ctx : Context

/-- What the agents of a run share: the context and the aggregator. -/
structure Segment where
  ctx : Context
  aggregator : CostAggregator

/-- The aggregator hears what the bus announces. -/
def Segment.serve (s : Segment) (e : Answered Ask Answer) : Segment :=
  match e with
  | ⟨.announce body, _⟩ => { s with aggregator := s.aggregator.onEvent s.ctx.runId body }
  | _ => s

/-- An answer of the aggregator is right. What lies outside may answer
anything. -/
def Segment.Truthful (s : Segment) : Answered Ask Answer → Prop
  | ⟨.totals, totals⟩ => totals = s.aggregator.getTotals s.ctx.runId
  | _ => True

abbrev Calls := Pool Segment Job Ask Answer Raised AgentResult

/-- The agents of one call of `run()`, outside of replay. The engine may call any
agent at any time, one after the other or side by side. -/
def runSystem : System Segment Empty Job Ask Answer Raised AgentResult where
  init s := s.ctx.hasBus = true ∧ s.ctx.replayEvents = [] ∧ s.ctx.costAggregator = true ∧
    ∃ registry, s.aggregator = .new registry
  code job := job.agent.run job.input job.ctx
  opens s job := Handed s.ctx job.ctx
  serves s e s' := s.Truthful e ∧ s' = s.serve e
  turns _ m _ := m.elim

/-! ## What is returned, announced and spent -/

/-- The completions among the answers of calls. -/
def responses {n : Nat} (answers : Fin n → Except Raised LLMResponse) : List LLMResponse :=
  (List.ofFn answers).filterMap Except.toOption

/-- The completions that an answer brings. -/
def returnedAt : Answered Ask Answer → List LLMResponse
  | ⟨.complete _ _, answers⟩ => responses answers
  | _ => []

/-- The charge for a completion: its usage, under the model that answered or else
the one that was asked. -/
def chargeOf (request : Request) (response : LLMResponse) : Charge :=
  ⟨modelName request.model response, response.spent.toTokenUsage⟩

/-- The charges for the completions that an answer brings. -/
def chargedAt : Answered Ask Answer → List Charge
  | ⟨.complete _ requests, answers⟩ =>
    (List.ofFn (fun i => (answers i).map (chargeOf (requests.get i)))).filterMap Except.toOption
  | _ => []

def calledAt : Answered Ask Answer → List Charge
  | ⟨.announce body, _⟩ => (carried? body).toList
  | _ => []

/-- The charges for the completions that a trace got. -/
def returned (trace : Trace) : List Charge := trace.flatMap chargedAt

/-- The charges in the events of calls that a trace announced. -/
def called (trace : Trace) : List Charge := trace.flatMap calledAt

theorem usage_ext {u v : TokenUsage} (hin : u.inputTokens = v.inputTokens)
    (hout : u.outputTokens = v.outputTokens) (hcost : u.estimatedCostUsd = v.estimatedCostUsd)
    (htotal : u.totalTokens = v.totalTokens) : u = v := by
  rcases u with ⟨⟨a, b, c⟩, d⟩
  rcases v with ⟨⟨a', b', c'⟩, d'⟩
  simp only at hin hout hcost htotal
  rw [hin, hout, hcost, htotal]

instance : Add TokenUsage := ⟨TokenUsage.add⟩

instance : Zero TokenUsage := ⟨.zero⟩

instance : AddCommMonoid TokenUsage where
  add_assoc u v w :=
    usage_ext (Nat.add_assoc _ _ _) (Nat.add_assoc _ _ _) (add_assoc _ _ _) (Nat.add_assoc _ _ _)
  zero_add u := usage_ext (Nat.zero_add _) (Nat.zero_add _) (zero_add _) (Nat.zero_add _)
  add_zero u := usage_ext (Nat.add_zero _) (Nat.add_zero _) (add_zero _) (Nat.add_zero _)
  add_comm u v :=
    usage_ext (Nat.add_comm _ _) (Nat.add_comm _ _) (add_comm _ _) (Nat.add_comm _ _)
  nsmul := nsmulRec

theorem add_eq (u v : TokenUsage) : u.add v = u + v := rfl

/-- What the completions of an answer used. -/
def spentAt (e : Answered Ask Answer) : TokenUsage := ((returnedAt e).map (·.spent)).sum

/-- The calls of a run are accounted for: an event follows each completion and
carries its usage, the aggregator has the tokens of all of them when no agent is
at work, and each result has the usage of the completions that its agent got. -/
structure Accounted (P : Calls) : Prop where
  followed : ∀ task ∈ P.tasks, called task.trace <+: returned task.trace ∧
    (returned task.trace).length ≤ (called task.trace).length + 1
  settled : ∀ task ∈ P.tasks, task.code.ended → called task.trace = returned task.trace
  total : (∀ task ∈ P.tasks, task.code.ended) →
    (P.shared.aggregator.getTotals P.shared.ctx.runId).totalTokens =
      ((P.tasks.flatMap (fun task => returned task.trace)).map Charge.tokens).sum
  usage : ∀ task ∈ P.tasks, ∀ result, task.code = .done (.ok result) →
    result.tokenUsage.getD .zero = tally spentAt task.trace

/-! ## When all calls are seen -/

/-- A guardrail whose failure ends its chain without an exception. -/
def Stops (g : Validator) : Prop := g.onFail = .block ∨ g.onFail = .retry

/-- What an answer may not do, after the calls of its agent used `spent`: bring a
completion that was asked for outside of the loop of `BaseAgent.run`, keep an
event out of the store, or stop a chain of guardrails after tokens were used. -/
inductive Unseen (spent : TokenUsage) : Answered Ask Answer → Prop
  | silent {site : Site} {requests : List Request}
    {answers : Fin requests.length → Except Raised LLMResponse} (outside : site ≠ .loop)
    (returns : responses answers ≠ []) : Unseen spent ⟨.complete site requests, answers⟩
  | refused {body : EventBody} {e : Raised} (call : (carried? body).isSome) :
    Unseen spent ⟨.append body, .error e⟩
  | dropped {g : Validator} {text : String} {result : GuardrailResult} (stops : Stops g)
    (fails : result.passed = false) (used : spent ≠ 0) :
    Unseen spent ⟨.validate g text, .ok result⟩

/-- A step at which no call gets out of sight. -/
def Seen (P : Calls) : Move Empty Job Ask Answer → Prop
  | .answer i e => ∀ task, P.tasks[i]? = some task → ¬ Unseen (tally spentAt task.trace) e
  | _ => True

end orchestra.metering
