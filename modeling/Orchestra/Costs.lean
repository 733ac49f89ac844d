-- What a run spends (`cost/`): the prices of the models, the totals that the
-- aggregator keeps of each run, and the limits of a budget policy.
import Orchestra.Events
import Orchestra.Lib.Decimal
import Orchestra.Lib.Text

open decimals dicts texts orchestra.events

namespace orchestra.costs

/-! ## Prices -/

/-- The prices of a model. One that is not given is 0. -/
structure Pricing where
  inputCostPerToken : Rat
  outputCostPerToken : Rat
deriving DecidableEq, Repr

structure ModelCostRegistry where
  prices : Dict String Pricing

namespace ModelCostRegistry

/-- One turn of the search for the longest registered name that `model` starts
with. -/
def longer (model : String) (best : String) (registered : String) : String :=
  if startsWith model registered && best.length < registered.length then registered else best

/-- `get_pricing`: by the name itself, else by the longest prefix. -/
def getPricing (registry : ModelCostRegistry) (model : String) : Option Pricing :=
  match registry.prices.get? model with
  | some pricing => some pricing
  | none =>
    let best := registry.prices.keys.foldl (longer model) ""
    if best = "" then none else registry.prices.get? best

/-- `calculate_cost`. A model that is not known costs nothing. -/
def calculateCost (registry : ModelCostRegistry) (model : String)
    (inputTokens outputTokens : Nat) : Rat :=
  match registry.getPricing model with
  | none => 0
  | some pricing =>
    inputTokens * pricing.inputCostPerToken + outputTokens * pricing.outputCostPerToken

end ModelCostRegistry

/-! ## The aggregator -/

/-- The share of one model or of one agent. -/
structure Breakdown where
  costUsd : Rat
  inputTokens : Nat
  outputTokens : Nat
  callCount : Nat
deriving DecidableEq, Repr

def Breakdown.zero : Breakdown := ⟨0, 0, 0, 0⟩

def Breakdown.add (b : Breakdown) (cost : Rat) (inputTokens outputTokens : Nat) : Breakdown :=
  ⟨b.costUsd + cost, b.inputTokens + inputTokens, b.outputTokens + outputTokens, b.callCount + 1⟩

structure RunCostSummary where
  totalCostUsd : Rat
  totalInputTokens : Nat
  totalOutputTokens : Nat
  totalTokens : Nat
  callCount : Nat
  byModel : Dict String Breakdown
  byAgent : Dict String Breakdown

def RunCostSummary.new : RunCostSummary := ⟨0, 0, 0, 0, 0, .empty, .empty⟩

/-- The entry of a breakdown grows, and a call without the name has none. -/
def bump (d : Dict String Breakdown) (name : String) (cost : Rat)
    (inputTokens outputTokens : Nat) : Dict String Breakdown :=
  if name = "" then d
  else d.set name (((d.get? name).getD .zero).add cost inputTokens outputTokens)

structure CostAggregator where
  registry : ModelCostRegistry
  runs : Dict String RunCostSummary

structure Totals where
  totalCostUsd : Rat
  totalTokens : Nat
deriving DecidableEq, Repr

namespace CostAggregator

def new (registry : ModelCostRegistry) : CostAggregator := ⟨registry, .empty⟩

/-- `_on_llm_called`, for an event of the run `runId`. -/
def onLlmCalled (agg : CostAggregator) (runId model agentName : String)
    (inputTokens outputTokens : Nat) : CostAggregator :=
  let summary := (agg.runs.get? runId).getD .new
  let cost := agg.registry.calculateCost model inputTokens outputTokens
  { agg with
    runs := agg.runs.set runId {
      totalCostUsd := summary.totalCostUsd + cost
      totalInputTokens := summary.totalInputTokens + inputTokens
      totalOutputTokens := summary.totalOutputTokens + outputTokens
      totalTokens := summary.totalTokens + (inputTokens + outputTokens)
      callCount := summary.callCount + 1
      byModel := bump summary.byModel model cost inputTokens outputTokens
      byAgent := bump summary.byAgent agentName cost inputTokens outputTokens } }

/-- `on_event`. Of all other events the aggregator keeps nothing. -/
def onEvent (agg : CostAggregator) (runId : String) : EventBody → CostAggregator
  | .agent _ (.llmCalled agentName model _ _ inputTokens outputTokens _ _) =>
    agg.onLlmCalled runId model agentName inputTokens outputTokens
  | _ => agg

/-- `get_totals`: zeros for a run that it has not heard of. -/
def getTotals (agg : CostAggregator) (runId : String) : Totals :=
  match agg.runs.get? runId with
  | none => ⟨0, 0⟩
  | some summary => ⟨summary.totalCostUsd, summary.totalTokens⟩

end CostAggregator

/-- What an event adds to the totals of its run. -/
def eventTotals (registry : ModelCostRegistry) : EventBody → Totals
  | .agent _ (.llmCalled _ model _ _ inputTokens outputTokens _ _) =>
    ⟨registry.calculateCost model inputTokens outputTokens, inputTokens + outputTokens⟩
  | _ => ⟨0, 0⟩

namespace Totals

instance : Add Totals := ⟨fun s t => ⟨s.totalCostUsd + t.totalCostUsd, s.totalTokens + t.totalTokens⟩⟩

instance : Zero Totals := ⟨⟨0, 0⟩⟩

@[simp] theorem cost_add (s t : Totals) : (s + t).totalCostUsd = s.totalCostUsd + t.totalCostUsd :=
  rfl

@[simp] theorem tokens_add (s t : Totals) : (s + t).totalTokens = s.totalTokens + t.totalTokens :=
  rfl

@[simp] theorem cost_zero : (0 : Totals).totalCostUsd = 0 := rfl

@[simp] theorem tokens_zero : (0 : Totals).totalTokens = 0 := rfl

theorem ext_parts {s t : Totals} (hcost : s.totalCostUsd = t.totalCostUsd)
    (htokens : s.totalTokens = t.totalTokens) : s = t := by
  cases s
  cases t
  simp only at hcost htokens
  rw [hcost, htokens]

instance : AddCommMonoid Totals where
  add_assoc s t u := ext_parts (add_assoc _ _ _) (add_assoc _ _ _)
  zero_add s := ext_parts (zero_add _) (zero_add _)
  add_zero s := ext_parts (add_zero _) (add_zero _)
  add_comm s t := ext_parts (add_comm _ _) (add_comm _ _)
  nsmul := nsmulRec

end Totals

@[simp] theorem registry_onEvent (agg : CostAggregator) (runId : String) (body : EventBody) :
    (agg.onEvent runId body).registry = agg.registry := by
  unfold CostAggregator.onEvent
  split <;> rfl

/-- The totals of a run grow by what each of its events adds. -/
theorem getTotals_onEvent (agg : CostAggregator) (runId : String) (body : EventBody) :
    (agg.onEvent runId body).getTotals runId =
      agg.getTotals runId + eventTotals agg.registry body := by
  have hsame : agg.getTotals runId + (0 : Totals) = agg.getTotals runId := add_zero _
  unfold CostAggregator.onEvent eventTotals
  split
  · unfold CostAggregator.onLlmCalled CostAggregator.getTotals
    simp only [Dict.get?_set_self]
    rcases agg.runs.get? runId with _ | summary
    · apply Totals.ext_parts
      · simp [RunCostSummary.new]
      · simp [RunCostSummary.new]
    · rfl
  · exact hsame.symm

/-! ## The policy -/

structure BudgetCheckResult where
  allowed : Bool
  softLimitHit : Bool
  hardLimitHit : Bool
  reason : String
  currentCostUsd : Rat
  currentTokens : Nat
  suggestedModel : Option String
deriving DecidableEq, Repr

/-- A limit that is `None` is never reached. -/
structure BudgetPolicy where
  softLimitUsd : Option Rat
  hardLimitUsd : Option Rat
  softLimitTokens : Option Int
  hardLimitTokens : Option Int
  downgradeModel : Option String
deriving DecidableEq, Repr

/-- `limit is not None and current >= limit` -/
def reached {N : Type} [LE N] [DecidableLE N] (limit : Option N) (current : N) : Bool :=
  limit.any (fun l => l ≤ current)

/-- The reason that names a limit, when it is reached. -/
def limitReason {N : Type} [LE N] [DecidableLE N] (text : N → String) (limit : Option N)
    (current : N) : List String :=
  if reached limit current then limit.toList.map text else []

namespace BudgetPolicy

def reasonUsd (kind : String) (limit : Option Rat) (current : Rat) : List String :=
  limitReason (fun l => kind ++ " USD limit exceeded: $" ++ fixed4 current ++ " >= $" ++ fixed4 l)
    limit current

def reasonTokens (kind : String) (limit : Option Int) (current : Nat) : List String :=
  limitReason (fun l => kind ++ " token limit exceeded: " ++ grouped current ++ " >= " ++ grouped l)
    limit (current : Int)

/-- `hard_hit` of `check` -/
def hardHit (policy : BudgetPolicy) (currentCostUsd : Rat) (currentTokens : Nat) : Bool :=
  reached policy.hardLimitUsd currentCostUsd || reached policy.hardLimitTokens (currentTokens : Int)

/-- `soft_hit` of `check`, which looks at it only when no hard limit is reached. -/
def softHit (policy : BudgetPolicy) (currentCostUsd : Rat) (currentTokens : Nat) : Bool :=
  reached policy.softLimitUsd currentCostUsd || reached policy.softLimitTokens (currentTokens : Int)

/-- `check` -/
def check (policy : BudgetPolicy) (currentCostUsd : Rat) (currentTokens : Nat) :
    BudgetCheckResult :=
  let hard := policy.hardHit currentCostUsd currentTokens
  let soft := !hard && policy.softHit currentCostUsd currentTokens
  let kind := if hard then "Hard" else "Soft"
  let reasons :=
    reasonUsd kind (if hard then policy.hardLimitUsd else policy.softLimitUsd) currentCostUsd ++
    reasonTokens kind (if hard then policy.hardLimitTokens else policy.softLimitTokens)
      currentTokens
  { allowed := !hard
    softLimitHit := soft
    hardLimitHit := hard
    reason := "; ".intercalate reasons
    currentCostUsd
    currentTokens
    suggestedModel :=
      match policy.downgradeModel with
      | some model => if soft && model ≠ "" then some model else none
      | none => none }

/-- `enforce` -/
def enforce (policy : BudgetPolicy) (currentCostUsd : Rat) (currentTokens : Nat) :
    Except Raised BudgetCheckResult :=
  let result := policy.check currentCostUsd currentTokens
  if result.allowed then .ok result else .error ⟨"BudgetExceededError", result.reason, false⟩

theorem enforce_ok_iff (policy : BudgetPolicy) (currentCostUsd : Rat) (currentTokens : Nat) :
    (∃ result, policy.enforce currentCostUsd currentTokens = .ok result) ↔
      policy.hardHit currentCostUsd currentTokens = false := by
  unfold enforce check
  by_cases h : policy.hardHit currentCostUsd currentTokens = true
  · simp [h]
  · simp [h]

end BudgetPolicy

end orchestra.costs
