-- Two reports of what a run costs: the summary that the aggregator keeps while the events
-- pass, and the one that the cost endpoint makes of the stored events (`routes/runs.py`).
import Mathlib.Algebra.BigOperators.Group.List.Basic
import Orchestra.Lib.Tally
import Orchestra.Costs

open dicts tallies orchestra.events orchestra.costs

namespace orchestra.cost_reports

/-! ## The events -/

/-- What both reports read of an `LLMCalled`. A name or a count may be missing. -/
structure LLMCalled where
  model : Option String
  agentName : Option String
  inputTokens : Option Nat
  outputTokens : Option Nat
deriving DecidableEq, Repr

/-- An event of a run, as the two reports tell the kinds apart. -/
inductive StoredEvent
  | llmCalled (call : LLMCalled)
  | other
deriving DecidableEq, Repr

def StoredEvent.call? : StoredEvent → Option LLMCalled
  | .llmCalled call => some call
  | .other => none

/-- `get_events(run_id, event_types=[EventType.LLM_CALLED])` -/
def llmCalls (events : List StoredEvent) : List LLMCalled := events.filterMap StoredEvent.call?

/-- The call has a model and an agent. -/
def LLMCalled.Named (call : LLMCalled) : Prop :=
  call.model.getD "" ≠ "" ∧ call.agentName.getD "" ≠ ""

/-! ## The aggregator -/

/-- `_dispatch`, for an event of the run `runId`. -/
def dispatch (agg : CostAggregator) (runId : String) : StoredEvent → CostAggregator
  | .llmCalled call =>
    agg.onLlmCalled runId (call.model.getD "") (call.agentName.getD "")
      (call.inputTokens.getD 0) (call.outputTokens.getD 0)
  | .other => agg

/-- An event of the engine, as the reports see it. -/
def seen : EventBody → StoredEvent
  | .agent _ (.llmCalled agentName model _ _ inputTokens outputTokens _ _) =>
    .llmCalled ⟨some model, some agentName, some inputTokens, some outputTokens⟩
  | _ => .other

theorem dispatch_seen (agg : CostAggregator) (runId : String) (body : EventBody) :
    dispatch agg runId (seen body) = agg.onEvent runId body := by
  unfold CostAggregator.onEvent
  split
  · rfl
  · rename_i hother
    unfold seen
    split
    · exact absurd rfl (hother _ _ _ _ _ _ _ _ _)
    · rfl

/-- The aggregator after what has passed on the bus, of all runs. -/
def observe (agg : CostAggregator) (bus : List (String × StoredEvent)) : CostAggregator :=
  bus.foldl (fun agg e => dispatch agg e.1 e.2) agg

/-- `get_summary`, or nothing spent when the run has no entry. -/
def getSummary (agg : CostAggregator) (runId : String) : RunCostSummary :=
  (agg.runs.get? runId).getD .new

/-- The events of one run. -/
def eventsOf (runId : String) (bus : List (String × StoredEvent)) : List StoredEvent :=
  (bus.filter (fun e => e.1 = runId)).map (·.2)

/-! ## The endpoint -/

structure RunCost where
  runId : String
  totalCostUsd : Rat
  totalInputTokens : Nat
  totalOutputTokens : Nat
  totalTokens : Nat
  callCount : Nat
  byModel : Dict String Breakdown
  byAgent : Dict String Breakdown

/-- The variables of the loop in `get_run_cost`. -/
structure CostLoop where
  totalCost : Rat
  totalIn : Nat
  totalOut : Nat
  byModel : Dict String Breakdown
  byAgent : Dict String Breakdown

def CostLoop.start : CostLoop := ⟨0, 0, 0, .empty, .empty⟩

/-- One turn of the loop over the buckets. A key that is not there gets zeros first. -/
def addTo (bucket : Dict String Breakdown) (key : String) (cost : Rat) (inp out : Nat) :
    Dict String Breakdown :=
  if key = "" then bucket
  else
    let bucket := if key ∈ bucket.keys then bucket else bucket.set key .zero
    match bucket.get? key with
    | some b => bucket.set key (b.add cost inp out)
    | none => bucket

/-- One turn of the loop over the events. -/
def CostLoop.turn (registry : ModelCostRegistry) (s : CostLoop) (e : LLMCalled) : CostLoop :=
  let model := e.model.getD ""
  let agent := e.agentName.getD ""
  let inp := e.inputTokens.getD 0
  let out := e.outputTokens.getD 0
  let cost := registry.calculateCost model inp out
  { totalCost := s.totalCost + cost
    totalIn := s.totalIn + inp
    totalOut := s.totalOut + out
    byModel := addTo s.byModel model cost inp out
    byAgent := addTo s.byAgent agent cost inp out }

/-- `get_run_cost` -/
def getRunCost (registry : ModelCostRegistry) (runId : String) (stored : List StoredEvent) :
    RunCost :=
  let events := llmCalls stored
  let s := events.foldl (CostLoop.turn registry) .start
  { runId
    totalCostUsd := s.totalCost
    totalInputTokens := s.totalIn
    totalOutputTokens := s.totalOut
    totalTokens := s.totalIn + s.totalOut
    callCount := events.length
    byModel := s.byModel
    byAgent := s.byAgent }

/-! ## Side by side -/

/-- The summary has the figures of the report. -/
structure Agrees (summary : RunCostSummary) (report : RunCost) : Prop where
  cost : summary.totalCostUsd = report.totalCostUsd
  inputTokens : summary.totalInputTokens = report.totalInputTokens
  outputTokens : summary.totalOutputTokens = report.totalOutputTokens
  tokens : summary.totalTokens = report.totalTokens
  calls : summary.callCount = report.callCount
  byModel : summary.byModel = report.byModel
  byAgent : summary.byAgent = report.byAgent

/-- The shares in a breakdown add up to the totals of the summary. -/
structure AddsUp (shares : Dict String Breakdown) (summary : RunCostSummary) : Prop where
  cost : (shares.entries.map (·.2.costUsd)).sum = summary.totalCostUsd
  inputTokens : (shares.entries.map (·.2.inputTokens)).sum = summary.totalInputTokens
  outputTokens : (shares.entries.map (·.2.outputTokens)).sum = summary.totalOutputTokens
  tokens : (shares.entries.map (fun e => e.2.inputTokens + e.2.outputTokens)).sum =
    summary.totalTokens
  calls : (shares.entries.map (·.2.callCount)).sum = summary.callCount

/-- The loop of the endpoint after `n` calls, beside the summary after the same calls. -/
structure Beside (summary : RunCostSummary) (s : CostLoop) (n : Nat) : Prop where
  cost : summary.totalCostUsd = s.totalCost
  inputTokens : summary.totalInputTokens = s.totalIn
  outputTokens : summary.totalOutputTokens = s.totalOut
  tokens : summary.totalTokens = s.totalIn + s.totalOut
  calls : summary.callCount = n
  byModel : summary.byModel = s.byModel
  byAgent : summary.byAgent = s.byAgent

/-- Zeros first and the share on top is the same as one write. -/
theorem addTo_eq_bump (bucket : Dict String Breakdown) (key : String) (cost : Rat)
    (inp out : Nat) : addTo bucket key cost inp out = bump bucket key cost inp out := by
  unfold addTo bump
  split
  · rfl
  rcases hget : bucket.get? key with _ | b
  · have hnew : key ∉ bucket.keys := (Dict.get?_eq_none_iff bucket key).mp hget
    simp only [hnew, if_false, Dict.get?_set_self, Dict.set_set, Option.getD_none]
  · have hmem : key ∈ bucket.keys := (Dict.mem_keys_iff bucket key).mpr ⟨b, hget⟩
    simp only [hmem, if_true, hget, Option.getD_some]

/-- The summary of a run after one more of its calls. -/
def grown (registry : ModelCostRegistry) (summary : RunCostSummary) (e : LLMCalled) :
    RunCostSummary :=
  let model := e.model.getD ""
  let agentName := e.agentName.getD ""
  let inputTokens := e.inputTokens.getD 0
  let outputTokens := e.outputTokens.getD 0
  let cost := registry.calculateCost model inputTokens outputTokens
  { totalCostUsd := summary.totalCostUsd + cost
    totalInputTokens := summary.totalInputTokens + inputTokens
    totalOutputTokens := summary.totalOutputTokens + outputTokens
    totalTokens := summary.totalTokens + (inputTokens + outputTokens)
    callCount := summary.callCount + 1
    byModel := bump summary.byModel model cost inputTokens outputTokens
    byAgent := bump summary.byAgent agentName cost inputTokens outputTokens }

theorem registry_dispatch (agg : CostAggregator) (runId : String) (e : StoredEvent) :
    (dispatch agg runId e).registry = agg.registry := by
  cases e <;> rfl

/-- An event of another run leaves the summary alone. -/
theorem getSummary_dispatch_other (agg : CostAggregator) {runId other : String}
    (h : other ≠ runId) (e : StoredEvent) :
    getSummary (dispatch agg other e) runId = getSummary agg runId := by
  cases e with
  | llmCalled call =>
    unfold getSummary
    exact congrArg (Option.getD · _) (Dict.get?_set_ne agg.runs _ h)
  | other => rfl

theorem getSummary_dispatch (agg : CostAggregator) (runId : String) (e : LLMCalled) :
    getSummary (dispatch agg runId (.llmCalled e)) runId =
      grown agg.registry (getSummary agg runId) e := by
  have hset := Dict.get?_set_self agg.runs runId (grown agg.registry (getSummary agg runId) e)
  exact congrArg (Option.getD · RunCostSummary.new) hset

/-- Of all that passes on the bus, the summary of a run is what its own calls made of it. -/
theorem getSummary_observe (agg : CostAggregator) (runId : String)
    (bus : List (String × StoredEvent)) :
    getSummary (observe agg bus) runId =
      (llmCalls (eventsOf runId bus)).foldl (grown agg.registry) (getSummary agg runId) := by
  induction bus generalizing agg with
  | nil => rfl
  | cons e rest ih =>
    obtain ⟨id, event⟩ := e
    show getSummary (observe (dispatch agg id event) rest) runId = _
    rw [ih, registry_dispatch]
    by_cases hid : id = runId
    · subst hid
      have hevents : eventsOf id ((id, event) :: rest) = event :: eventsOf id rest := by
        simp [eventsOf]
      rw [hevents]
      cases event with
      | llmCalled call =>
        rw [getSummary_dispatch]
        rfl
      | other => rfl
    · have hevents : eventsOf runId ((id, event) :: rest) = eventsOf runId rest := by
        simp [eventsOf, hid]
      rw [hevents, getSummary_dispatch_other agg hid]

/-! ## The reports agree -/

theorem beside_turn (registry : ModelCostRegistry) {summary : RunCostSummary} {s : CostLoop}
    {n : Nat} (h : Beside summary s n) (e : LLMCalled) :
    Beside (grown registry summary e) (s.turn registry e) (n + 1) := by
  constructor
  · exact congrArg (· + _) h.cost
  · exact congrArg (· + _) h.inputTokens
  · exact congrArg (· + _) h.outputTokens
  · show summary.totalTokens + _ = (s.totalIn + _) + (s.totalOut + _)
    rw [h.tokens]
    omega
  · exact congrArg (· + 1) h.calls
  · show bump summary.byModel _ _ _ _ = addTo s.byModel _ _ _ _
    rw [addTo_eq_bump, h.byModel]
  · show bump summary.byAgent _ _ _ _ = addTo s.byAgent _ _ _ _
    rw [addTo_eq_bump, h.byAgent]

theorem beside_calls (registry : ModelCostRegistry) {summary : RunCostSummary} {s : CostLoop}
    {n : Nat} (h : Beside summary s n) (calls : List LLMCalled) :
    Beside (calls.foldl (grown registry) summary) (calls.foldl (CostLoop.turn registry) s)
      (n + calls.length) := by
  induction calls generalizing summary s n with
  | nil => exact h
  | cons e rest ih =>
    have hrest := ih (beside_turn registry h e)
    rwa [Nat.add_assoc, Nat.add_comm 1] at hrest

theorem agrees_of_beside {summary : RunCostSummary} {registry : ModelCostRegistry}
    {runId : String} {stored : List StoredEvent}
    (h : Beside summary ((llmCalls stored).foldl (CostLoop.turn registry) .start)
      (llmCalls stored).length) : Agrees summary (getRunCost registry runId stored) :=
  ⟨h.cost, h.inputTokens, h.outputTokens, h.tokens, h.calls, h.byModel, h.byAgent⟩

/-! ## The shares add up -/

/-- A share that grows by `more` makes the sum over all shares grow by `more`. -/
theorem sum_bump {M : Type} [AddCommMonoid M] (f : Breakdown → M) (hzero : f .zero = 0)
    {more : M} {cost : Rat} {inputTokens outputTokens : Nat}
    (hadd : ∀ b, f (b.add cost inputTokens outputTokens) = f b + more)
    (d : Dict String Breakdown) {name : String} (hname : name ≠ "") :
    ((bump d name cost inputTokens outputTokens).entries.map (fun e => f e.2)).sum =
      (d.entries.map (fun e => f e.2)).sum + more := by
  unfold bump
  rw [if_neg hname]
  exact sum_setEntries f hzero d.entries (hadd _)

/-- The shares by one of the names add up again after a call that has it. -/
theorem addsUp_bump {registry : ModelCostRegistry} {summary : RunCostSummary}
    {shares : Dict String Breakdown} (h : AddsUp shares summary) (e : LLMCalled) {name : String}
    (hname : name ≠ "") :
    AddsUp (bump shares name
      (registry.calculateCost (e.model.getD "") (e.inputTokens.getD 0) (e.outputTokens.getD 0))
      (e.inputTokens.getD 0) (e.outputTokens.getD 0)) (grown registry summary e) := by
  constructor
  · rw [sum_bump Breakdown.costUsd rfl (fun _ => rfl) shares hname, h.cost]
    rfl
  · rw [sum_bump Breakdown.inputTokens rfl (fun _ => rfl) shares hname, h.inputTokens]
    rfl
  · rw [sum_bump Breakdown.outputTokens rfl (fun _ => rfl) shares hname, h.outputTokens]
    rfl
  · rw [sum_bump (fun b => b.inputTokens + b.outputTokens) rfl
      (fun _ => add_add_add_comm _ _ _ _) shares hname, h.tokens]
    rfl
  · rw [sum_bump Breakdown.callCount rfl (fun _ => rfl) shares hname, h.calls]
    rfl

theorem addsUp_calls {registry : ModelCostRegistry} {summary : RunCostSummary}
    (hmodel : AddsUp summary.byModel summary) (hagent : AddsUp summary.byAgent summary)
    {calls : List LLMCalled} (hnamed : ∀ e ∈ calls, e.Named) :
    AddsUp (calls.foldl (grown registry) summary).byModel
        (calls.foldl (grown registry) summary) ∧
      AddsUp (calls.foldl (grown registry) summary).byAgent
        (calls.foldl (grown registry) summary) := by
  induction calls generalizing summary with
  | nil => exact ⟨hmodel, hagent⟩
  | cons e rest ih =>
    have he := hnamed e (List.mem_cons_self ..)
    exact ih (addsUp_bump hmodel e he.1) (addsUp_bump hagent e he.2)
      (fun e' h' => hnamed e' (List.mem_cons_of_mem _ h'))

/-! ## The two reports -/

/-- Whatever passes on the bus, the summary of a run and the report of its stored events have
the same figures. When each of its calls names a model and an agent, the shares of the models
add up to the totals, and so do those of the agents. -/
theorem cost_reports_agree (registry : ModelCostRegistry) (runId : String)
    (bus : List (String × StoredEvent)) :
    let summary := getSummary (observe (.new registry) bus) runId
    Agrees summary (getRunCost registry runId (eventsOf runId bus)) ∧
      ((∀ e ∈ llmCalls (eventsOf runId bus), e.Named) →
        AddsUp summary.byModel summary ∧ AddsUp summary.byAgent summary) := by
  have hsummary : getSummary (observe (.new registry) bus) runId =
      (llmCalls (eventsOf runId bus)).foldl (grown registry) .new :=
    getSummary_observe (.new registry) runId bus
  have hstart : Beside .new .start 0 := ⟨rfl, rfl, rfl, rfl, rfl, rfl, rfl⟩
  have hempty : AddsUp Dict.empty .new := ⟨rfl, rfl, rfl, rfl, rfl⟩
  simp only [hsummary]
  constructor
  · have h := beside_calls registry hstart (llmCalls (eventsOf runId bus))
    rw [Nat.zero_add] at h
    exact agrees_of_beside h
  · intro hnamed
    exact addsUp_calls hempty hempty hnamed

/-- Two runs share the bus, and one count is missing. -/
def sharedBus : List (String × StoredEvent) :=
  [("a", .llmCalled ⟨some "small", some "writer", some 10, none⟩), ("b", .other),
    ("b", .llmCalled ⟨none, some "critic", some 1, some 1⟩),
    ("a", .llmCalled ⟨some "large", some "writer", some 5, some 7⟩)]

theorem the_shares_of_a_run_add_up :
    let registry : ModelCostRegistry := ⟨Dict.ofList [("large", ⟨2, 3⟩)]⟩
    let summary := getSummary (observe (.new registry) sharedBus) "a"
    summary.totalCostUsd = 31 ∧ AddsUp summary.byModel summary ∧
      AddsUp summary.byAgent summary := by
  intro registry summary
  have hnamed : ∀ e ∈ llmCalls (eventsOf "a" sharedBus), e.Named := by
    intro e he
    rcases List.mem_pair.mp he with rfl | rfl
    · exact ⟨by decide, by decide⟩
    · exact ⟨by decide, by decide⟩
  exact ⟨by decide +kernel, (cost_reports_agree registry "a" sharedBus).2 hnamed⟩

end orchestra.cost_reports
