-- The choice of a model by cost and latency (`routing/router.py`): filters, the fallbacks where
-- no model passes them, and sampling among what is left.
import Orchestra.Values
import Orchestra.Lib.Best
import Mathlib.Algebra.Order.Field.Rat
import Mathlib.Tactic.Linarith

open best dicts

namespace orchestra.model_router

/-! ## Options and limits -/

structure ModelOption where
  modelName : String
  providerName : String
  inputCost1k : Rat
  outputCost1k : Rat
  latencyScore : Int
  capabilityScore : Int
  features : List String

inductive SelectionFallback
  | failFast
  | favorCost
  | favorLatency
deriving DecidableEq

structure SLAConstraint where
  maxLatencyMs : Option Rat
  minCapabilityScore : Option Int
  requiredFeatures : List String

structure BudgetConstraint where
  maxCostUsd : Option Rat
  remainingBudgetUsd : Option Rat
  tenantId : Option String

structure RoutingDecision where
  model : ModelOption
  fallbackUsed : Option SelectionFallback
  candidatesConsidered : Nat
  reason : String

/-! ## Sampling -/

/-- The observations of each model of each provider, successes first. -/
structure ThompsonModelSelector where
  stats : Dict (String × String) (Rat × Rat)
  alphaInit : Rat
  betaInit : Rat

namespace ThompsonModelSelector

/-- What is known of an option, or what is assumed at first. -/
def observed (t : ThompsonModelSelector) (o : ModelOption) : Rat × Rat :=
  (t.stats.get? (o.modelName, o.providerName)).getD (t.alphaInit, t.betaInit)

/-- The selector once it has an entry for each option. -/
def tracked (t : ThompsonModelSelector) (options : List ModelOption) : ThompsonModelSelector :=
  options.foldl (fun t o =>
    { t with stats := t.stats.set (o.modelName, o.providerName) (t.observed o) }) t

/-- One sample for each option. `draw` is what the Beta distribution gives for the option at a
place of the list. -/
def samples (draw : Nat → Rat × Rat → Rat) (t : ThompsonModelSelector)
    (options : List ModelOption) : List (Rat × ModelOption) :=
  options.mapIdx fun i o => (draw i (t.observed o), o)

def select (draw : Nat → Rat × Rat → Rat) (t : ThompsonModelSelector)
    (options : List ModelOption) : ThompsonModelSelector × Except Raised ModelOption :=
  match t.samples draw options with
  | [] =>
    (t, .error ⟨"ValueError", "No model options provided to ThompsonModelSelector", false⟩)
  | first :: rest => (t.tracked options, .ok (maxBy Prod.fst first rest).2)

end ThompsonModelSelector

/-! ## The filters -/

/-- The slowest score that a limit on the latency lets pass. -/
def maxScore (maxLatencyMs : Rat) : Int :=
  if maxLatencyMs < 500 then 1
  else if maxLatencyMs < 1000 then 2
  else if maxLatencyMs < 2000 then 3
  else if maxLatencyMs < 5000 then 4
  else 5

def withCapability (options : List ModelOption) : Option Int → List ModelOption
  | some score => options.filter fun o => score ≤ o.capabilityScore
  | none => options

def withLatency (options : List ModelOption) : Option Rat → List ModelOption
  | some ms => options.filter fun o => o.latencyScore ≤ maxScore ms
  | none => options

def withFeatures (options : List ModelOption) (required : List String) : List ModelOption :=
  if required.isEmpty then options
  else options.filter fun o => required.all fun feature => o.features.contains feature

def filterBySla (options : List ModelOption) (sla : SLAConstraint) : List ModelOption :=
  withFeatures (withLatency (withCapability options sla.minCapabilityScore) sla.maxLatencyMs)
    sla.requiredFeatures

def estimatedCost (estimatedTokens : Int) (o : ModelOption) : Rat :=
  estimatedTokens / 1000 * (o.inputCost1k + o.outputCost1k)

/-- `limit is not None and cost > limit` -/
def exceeds (cost : Rat) (limit : Option Rat) : Bool :=
  match limit with
  | some limit => limit < cost
  | none => false

def filterByBudget (options : List ModelOption) (budget : BudgetConstraint)
    (estimatedTokens : Int) : List ModelOption :=
  options.filter fun o => !exceeds (estimatedCost estimatedTokens o) budget.maxCostUsd &&
    !exceeds (estimatedCost estimatedTokens o) budget.remainingBudgetUsd

def slaFiltered (options : List ModelOption) (sla : Option SLAConstraint) : List ModelOption :=
  match sla with
  | some sla => filterBySla options sla
  | none => options

def budgetFiltered (options : List ModelOption) (budget : Option BudgetConstraint)
    (estimatedTokens : Int) : List ModelOption :=
  match budget with
  | some budget => filterByBudget options budget estimatedTokens
  | none => options

/-- Half as much again for this call. A limit of zero is dropped. -/
def relaxedBudget (budget : BudgetConstraint) : BudgetConstraint :=
  { budget with
    maxCostUsd := match budget.maxCostUsd with
      | some limit => if limit = 0 then none else some (limit * (3 / 2))
      | none => none }

/-! ## The router -/

/-- The least of the candidates by a key, or of all options where there is none. -/
def leastOf (key : ModelOption → Rat) (candidates : List ModelOption) (first : ModelOption)
    (rest : List ModelOption) : ModelOption :=
  match candidates with
  | [] => minBy key first rest
  | c :: cs => minBy key c cs

/-- `select_model` on the options `first :: rest`: the candidates that the selector gets, and
whether a fallback was used. -/
def candidatesFor (first : ModelOption) (rest : List ModelOption) (estimatedTokens : Int)
    (sla : Option SLAConstraint) (budget : Option BudgetConstraint) (fallback : SelectionFallback) :
    Except Raised (List ModelOption × Option SelectionFallback × String) :=
  let options := first :: rest
  let candidates := budgetFiltered (slaFiltered options sla) budget estimatedTokens
  if candidates.isEmpty then
    match fallback with
    | .failFast => .error ⟨"ModelSelectionError", "No models satisfy SLA and budget constraints",
        false⟩
    | .favorCost =>
      let candidates := budgetFiltered options budget estimatedTokens
      .ok ([leastOf (·.inputCost1k) candidates first rest], some .favorCost,
        "SLA relaxed to favor cost")
    | .favorLatency =>
      let candidates := budgetFiltered (slaFiltered options sla) (budget.map relaxedBudget)
        estimatedTokens
      .ok ([leastOf (fun o => o.latencyScore) candidates first rest], some .favorLatency,
        "Budget relaxed to favor latency")
  else .ok (candidates, none, "Direct selection")

def selectModel (draw : Nat → Rat × Rat → Rat) (selector : ThompsonModelSelector)
    (options : List ModelOption) (estimatedTokens : Int) (sla : Option SLAConstraint)
    (budget : Option BudgetConstraint) (fallback : SelectionFallback) :
    ThompsonModelSelector × Except Raised RoutingDecision :=
  match options with
  | [] => (selector, .error ⟨"ValueError", "No options provided to CostAwareRouter", false⟩)
  | first :: rest =>
    match candidatesFor first rest estimatedTokens sla budget fallback with
    | .error e => (selector, .error e)
    | .ok (candidates, fallbackUsed, reason) =>
      match selector.select draw candidates with
      | (selector, .error e) => (selector, .error e)
      | (selector, .ok model) => (selector, .ok ⟨model, fallbackUsed, options.length, reason⟩)

/-! ## What the limits ask for -/

/-- Each limit of the service level that there is holds. -/
def MeetsSla (sla : Option SLAConstraint) (o : ModelOption) : Prop :=
  ∀ s ∈ sla, (∀ score ∈ s.minCapabilityScore, score ≤ o.capabilityScore) ∧
    (∀ ms ∈ s.maxLatencyMs, o.latencyScore ≤ maxScore ms) ∧ s.requiredFeatures ⊆ o.features

/-- The cost is within both limits of the budget that there are. -/
def MeetsBudget (budget : Option BudgetConstraint) (cost : Rat) : Prop :=
  ∀ b ∈ budget, (∀ limit ∈ b.maxCostUsd, cost ≤ limit) ∧ ∀ left ∈ b.remainingBudgetUsd, cost ≤ left

/-- The cost is within one and a half times the limit of a call, and within what is left. -/
def MeetsRelaxed (budget : Option BudgetConstraint) (cost : Rat) : Prop :=
  ∀ b ∈ budget, (∀ limit ∈ b.maxCostUsd, cost ≤ limit * (3 / 2)) ∧
    ∀ left ∈ b.remainingBudgetUsd, cost ≤ left

variable {options : List ModelOption} {o : ModelOption} {sla : Option SLAConstraint}
  {budget : Option BudgetConstraint} {estimatedTokens : Int}

theorem mem_withCapability {limit : Option Int} :
    o ∈ withCapability options limit ↔
      o ∈ options ∧ ∀ score ∈ limit, score ≤ o.capabilityScore := by
  cases limit <;> simp [withCapability]

theorem mem_withLatency {limit : Option Rat} :
    o ∈ withLatency options limit ↔
      o ∈ options ∧ ∀ ms ∈ limit, o.latencyScore ≤ maxScore ms := by
  cases limit <;> simp [withLatency]

theorem mem_withFeatures {required : List String} :
    o ∈ withFeatures options required ↔ o ∈ options ∧ required ⊆ o.features := by
  cases required <;> simp [withFeatures, List.subset_def]

theorem mem_slaFiltered : o ∈ slaFiltered options sla ↔ o ∈ options ∧ MeetsSla sla o := by
  unfold slaFiltered MeetsSla
  rcases sla with _ | s
  · simp
  · simp [filterBySla, mem_withFeatures, mem_withLatency, mem_withCapability, and_assoc]

theorem exceeds_eq_false_iff {cost : Rat} {limit : Option Rat} :
    exceeds cost limit = false ↔ ∀ l ∈ limit, cost ≤ l := by
  cases limit <;> simp [exceeds]

theorem mem_budgetFiltered : o ∈ budgetFiltered options budget estimatedTokens ↔
    o ∈ options ∧ MeetsBudget budget (estimatedCost estimatedTokens o) := by
  unfold budgetFiltered MeetsBudget
  rcases budget with _ | b
  · simp
  · simp [filterByBudget, exceeds_eq_false_iff]

/-! ## What is chosen -/

/-- The selector takes one of its candidates. -/
theorem select_mem (draw : Nat → Rat × Rat → Rat) (t : ThompsonModelSelector)
    {candidates : List ModelOption} (h : candidates ≠ []) :
    ∃ t', ∃ model ∈ candidates, t.select draw candidates = (t', .ok model) := by
  unfold ThompsonModelSelector.select
  rcases hsamples : t.samples draw candidates with _ | ⟨first, rest⟩
  · have hlength : candidates.length = 0 := by
      rw [← List.length_mapIdx (f := fun i o => (draw i (t.observed o), o))]
      exact congrArg List.length hsamples
    exact absurd (List.length_eq_zero_iff.mp hlength) h
  · refine ⟨_, _, ?_, rfl⟩
    have hmem := maxBy_mem Prod.fst first rest
    rw [← hsamples] at hmem
    obtain ⟨i, hi, heq⟩ := List.mem_mapIdx.mp hmem
    rw [← heq]
    exact List.getElem_mem hi

theorem leastOf_mem (key : ModelOption → Rat) (candidates : List ModelOption)
    (first : ModelOption) (rest : List ModelOption) :
    leastOf key candidates first rest ∈ candidates ++ first :: rest := by
  unfold leastOf
  split
  · exact minBy_mem key first rest
  · exact List.mem_append_left _ (minBy_mem key _ _)

/-- The least of the candidates, if there are any. -/
theorem leastOf_least (key : ModelOption → Rat) (first : ModelOption) (rest : List ModelOption)
    {candidates : List ModelOption} (ho : o ∈ candidates) :
    leastOf key candidates first rest ∈ candidates ∧
      ∀ c ∈ candidates, key (leastOf key candidates first rest) ≤ key c := by
  cases candidates with
  | nil => cases ho
  | cons c cs => exact ⟨minBy_mem key c cs, fun _ hc => minBy_le key hc⟩

/-- One and a half times a limit of zero or less is no more than the limit. -/
theorem meetsBudget_of_relaxed {cost : Rat} (h : MeetsRelaxed budget cost)
    (hlimit : ∃ b ∈ budget, ∃ limit ∈ b.maxCostUsd, limit ≤ 0) : MeetsBudget budget cost := by
  obtain ⟨b, hb, limit, hmax, hzero⟩ := hlimit
  intro b' hb'
  obtain rfl := Option.mem_unique hb hb'
  refine ⟨fun limit' hmax' => ?_, (h b hb).2⟩
  obtain rfl := Option.mem_unique hmax hmax'
  have := (h b hb).1 limit hmax
  linarith

/-- Where the limit of a call is not zero, the relaxed budget is what it is to be. -/
theorem meetsBudget_relaxedBudget {cost : Rat}
    (hlimit : ¬ ∃ b ∈ budget, ∃ limit ∈ b.maxCostUsd, limit ≤ 0) :
    MeetsBudget (budget.map relaxedBudget) cost ↔ MeetsRelaxed budget cost := by
  unfold MeetsBudget MeetsRelaxed
  rcases budget with _ | ⟨_ | limit, left, tenantId⟩
  · simp
  · simp [relaxedBudget]
  · have hne : limit ≠ 0 := by
      rintro rfl
      exact hlimit ⟨_, rfl, 0, rfl, le_rfl⟩
    simp [relaxedBudget, hne]

/-- An option that meets both, at its estimated cost. -/
def MeetsBoth (sla : Option SLAConstraint) (budget : Option BudgetConstraint)
    (estimatedTokens : Int) (o : ModelOption) : Prop :=
  MeetsSla sla o ∧ MeetsBudget budget (estimatedCost estimatedTokens o)

/-- What a choice owes to the limits. -/
structure Respects (options : List ModelOption) (estimatedTokens : Int)
    (sla : Option SLAConstraint) (budget : Option BudgetConstraint) (fallback : SelectionFallback)
    (model : ModelOption) : Prop where
  known : model ∈ options
  both : (∃ o ∈ options, MeetsBoth sla budget estimatedTokens o) →
    MeetsBoth sla budget estimatedTokens model
  cost : fallback = .favorCost →
    (∃ o ∈ options, MeetsBudget budget (estimatedCost estimatedTokens o)) →
      MeetsBudget budget (estimatedCost estimatedTokens model)
  latency : fallback = .favorLatency →
    (∀ o ∈ options, ¬ MeetsBoth sla budget estimatedTokens o) →
      (∃ o ∈ options, MeetsSla sla o ∧ MeetsRelaxed budget (estimatedCost estimatedTokens o)) →
        (MeetsSla sla model ∧ MeetsRelaxed budget (estimatedCost estimatedTokens model)) ∧
          ∀ o ∈ options, MeetsSla sla o → MeetsRelaxed budget (estimatedCost estimatedTokens o) →
            model.latencyScore ≤ o.latencyScore

theorem mem_candidates : o ∈ budgetFiltered (slaFiltered options sla) budget estimatedTokens ↔
    o ∈ options ∧ MeetsBoth sla budget estimatedTokens o := by
  rw [mem_budgetFiltered, mem_slaFiltered, and_assoc]
  rfl

/-- Any of the options that meet both. -/
theorem respects_both {fallback : SelectionFallback}
    (ho : o ∈ budgetFiltered (slaFiltered options sla) budget estimatedTokens) :
    Respects options estimatedTokens sla budget fallback o := by
  obtain ⟨hknown, hboth⟩ := mem_candidates.mp ho
  exact
    { known := hknown
      both := fun _ => hboth
      cost := fun _ _ => hboth.2
      latency := fun _ hnone => absurd hboth (hnone o hknown) }

variable {first : ModelOption} {rest : List ModelOption}

/-- Where no option meets both, the cheapest within the budget. -/
theorem respects_favorCost
    (hnone : ∀ o ∈ first :: rest, ¬ MeetsBoth sla budget estimatedTokens o) :
    Respects (first :: rest) estimatedTokens sla budget .favorCost
      (leastOf (·.inputCost1k) (budgetFiltered (first :: rest) budget estimatedTokens) first
        rest) where
  known := by
    rcases List.mem_append.mp (leastOf_mem (·.inputCost1k)
      (budgetFiltered (first :: rest) budget estimatedTokens) first rest) with hin | hany
    · exact (mem_budgetFiltered.mp hin).1
    · exact hany
  both := fun ⟨o, ho, hboth⟩ => absurd hboth (hnone o ho)
  cost := by
    rintro - ⟨o, ho, hbudget⟩
    have hin := (leastOf_least (·.inputCost1k) first rest
      (mem_budgetFiltered.mpr ⟨ho, hbudget⟩)).1
    exact (mem_budgetFiltered.mp hin).2
  latency := nofun

/-- Where no option meets both, the fastest within the relaxed budget. -/
theorem respects_favorLatency
    (hnone : ∀ o ∈ first :: rest, ¬ MeetsBoth sla budget estimatedTokens o) :
    Respects (first :: rest) estimatedTokens sla budget .favorLatency
      (leastOf (fun o => o.latencyScore) (budgetFiltered (slaFiltered (first :: rest) sla)
        (budget.map relaxedBudget) estimatedTokens) first rest) where
  known := by
    rcases List.mem_append.mp (leastOf_mem (fun o => o.latencyScore)
      (budgetFiltered (slaFiltered (first :: rest) sla) (budget.map relaxedBudget)
        estimatedTokens) first rest) with hin | hany
    · exact (mem_slaFiltered.mp (mem_budgetFiltered.mp hin).1).1
    · exact hany
  both := fun ⟨o, ho, hboth⟩ => absurd hboth (hnone o ho)
  cost := nofun
  latency := by
    rintro - - ⟨o, ho, hsla, hrelaxed⟩
    -- With a limit of zero, what the relaxed budget allows the budget allows.
    have hlimit : ¬ ∃ b ∈ budget, ∃ limit ∈ b.maxCostUsd, limit ≤ 0 := fun hzero =>
      hnone o ho ⟨hsla, meetsBudget_of_relaxed hrelaxed hzero⟩
    have hmem : ∀ c, c ∈ budgetFiltered (slaFiltered (first :: rest) sla)
        (budget.map relaxedBudget) estimatedTokens ↔ (c ∈ first :: rest ∧ MeetsSla sla c) ∧
          MeetsRelaxed budget (estimatedCost estimatedTokens c) := by
      intro c
      rw [mem_budgetFiltered, mem_slaFiltered, meetsBudget_relaxedBudget hlimit]
    obtain ⟨hin, hleast⟩ := leastOf_least (fun o => o.latencyScore) first rest
      ((hmem o).mpr ⟨⟨ho, hsla⟩, hrelaxed⟩)
    refine ⟨⟨((hmem _).mp hin).1.2, ((hmem _).mp hin).2⟩, fun c hc hcsla hcrelaxed => ?_⟩
    exact_mod_cast hleast c ((hmem c).mpr ⟨⟨hc, hcsla⟩, hcrelaxed⟩)

/-- The router respects service level and budget when it can. Of the options `first :: rest` it
chooses one as it owes to the limits, whatever the sampling gives. It fails only where it is to
fail fast and no option meets both. -/
theorem router_respects_limits (draw : Nat → Rat × Rat → Rat) (selector : ThompsonModelSelector)
    (first : ModelOption) (rest : List ModelOption) (estimatedTokens : Int)
    (sla : Option SLAConstraint) (budget : Option BudgetConstraint)
    (fallback : SelectionFallback) :
    (∃ d, (selectModel draw selector (first :: rest) estimatedTokens sla budget fallback).2 =
      .ok d ∧ Respects (first :: rest) estimatedTokens sla budget fallback d.model) ∨
    (fallback = .failFast ∧ ∀ o ∈ first :: rest, ¬ MeetsBoth sla budget estimatedTokens o) := by
  unfold selectModel
  by_cases hempty : budgetFiltered (slaFiltered (first :: rest) sla) budget estimatedTokens = []
  · have hnone : ∀ o ∈ first :: rest, ¬ MeetsBoth sla budget estimatedTokens o := by
      intro o ho hboth
      have := mem_candidates.mpr ⟨ho, hboth⟩
      rw [hempty] at this
      cases this
    cases fallback with
    | failFast => exact Or.inr ⟨rfl, hnone⟩
    | favorCost =>
      left
      simp only [candidatesFor, hempty, List.isEmpty_nil, if_true]
      obtain ⟨t', model, hmodel, heq⟩ := select_mem draw selector (List.cons_ne_nil
        (leastOf (·.inputCost1k) (budgetFiltered (first :: rest) budget estimatedTokens) first
          rest) [])
      rw [heq]
      refine ⟨_, rfl, ?_⟩
      rw [List.mem_singleton.mp hmodel]
      exact respects_favorCost hnone
    | favorLatency =>
      left
      simp only [candidatesFor, hempty, List.isEmpty_nil, if_true]
      obtain ⟨t', model, hmodel, heq⟩ := select_mem draw selector (List.cons_ne_nil
        (leastOf (fun o => o.latencyScore) (budgetFiltered (slaFiltered (first :: rest) sla)
          (budget.map relaxedBudget) estimatedTokens) first rest) [])
      rw [heq]
      refine ⟨_, rfl, ?_⟩
      rw [List.mem_singleton.mp hmodel]
      exact respects_favorLatency hnone
  · left
    have hfull := List.isEmpty_eq_false_iff.mpr hempty
    simp only [candidatesFor, hfull, if_false, Bool.false_eq_true]
    obtain ⟨t', model, hmodel, heq⟩ := select_mem draw selector hempty
    rw [heq]
    exact ⟨_, rfl, respects_both hmodel⟩

end orchestra.model_router
