-- Each call of a run is accounted for, in every run in which no call gets out of
-- sight.
import Orchestra.Runs
import Orchestra.Usage

open dicts programs machine orchestra.events orchestra.costs

namespace orchestra.metering

open orchestra.agents orchestra.thoughts orchestra.selfcheck orchestra.questions
open Program

/-! ## What all agents keep -/

/-- The terms keep `I` in every program that does not call the model in a loop, and
in the loop of `BaseAgent.run`. -/
structure Steady {κ : Type} (T : Terms Ask Answer κ) (I : κ → Prop) (ctx : Context) : Prop where
  outside : ∀ {α : Type} {p : Code α} {h : κ}, Asks Outside p → I h →
    Keeps T (fun h' _ => I h') h p
  loop : ∀ (a : BaseAgent) (input : Value) {h : κ}, I h →
    Keeps T (fun h' _ => I h') h (a.run input ctx false)

theorem outside_of_mute {α : Type} {p : Code α} (hp : Asks Mute p) : Asks Outside p :=
  hp.mono (fun _ => Outside.of_mute)

theorem outside_check (c : SelfChecker) (model : Option String) (response : String)
    (messages : List Value) : Asks Outside (c.check model response messages) := by
  refine asks_check ⟨fun _ => ?_, fun _ => ?_, fun _ => trivial, fun _ _ => trivial⟩ _ _ _ _
  · exact Site.noConfusion
  · exact Site.noConfusion

theorem outside_tree {ctx : Context} (t : TreeOfThoughtsAgent) (input : Value) :
    Asks Outside (t.run input ctx) := by
  refine asks_tree t ⟨fun _ => ?_, fun _ => ?_⟩ input
  · exact Site.noConfusion
  · exact Site.noConfusion

namespace Steady

variable {κ : Type} {T : Terms Ask Answer κ} {I : κ → Prop} {ctx : Context} {h : κ}

theorem attempts (hT : Steady T I ctx) (g : GuardedAgent) (input : Value) (left : Nat) (hI : I h) :
    Keeps T (fun h' _ => I h') h (attempts g ctx input left) := by
  induction left generalizing h with
  | zero => exact keeps_fail (T := T) hI
  | succ left ih =>
    unfold agents.attempts
    refine (hT.loop g.toBaseAgent input hI).andThen (fun h result hI => ?_) (fun _ _ h => h)
    split
    · exact keeps_pure (T := T) hI
    · refine (hT.outside (outside_of_mute (mute_runChain _ _ _)) hI).andThen
        (fun h verdict hI => ?_) (fun _ _ h => h)
      split
      · exact keeps_pure (T := T) hI
      · split
        · exact ih hI
        · exact keeps_pure (T := T) hI

theorem guarded (hT : Steady T I ctx) (g : GuardedAgent) (input : Value) (hI : I h) :
    Keeps T (fun h' _ => I h') h (g.run input ctx) := by
  unfold GuardedAgent.run
  split
  · exact hT.attempts g _ _ hI
  · refine (hT.outside (asks_ofExcept _) hI).andThen (fun h text hI => ?_) (fun _ _ h => h)
    refine (hT.outside (outside_of_mute (mute_runChain _ _ _)) hI).andThen
      (fun h verdict hI => ?_) (fun _ _ h => h)
    split
    · exact hT.attempts g _ _ hI
    · exact keeps_pure (T := T) hI

theorem selfCheck (hT : Steady T I ctx) (a : SelfCheckAgent) (input : Value) (hI : I h) :
    Keeps T (fun h' _ => I h') h (a.run input ctx) := by
  have hchecked : ∀ {h : κ} (messages : List Value), I h →
      Keeps T (fun h' _ => I h') h (a.checkedRun input ctx messages) := by
    intro h messages hI
    unfold SelfCheckAgent.checkedRun
    refine (hT.loop a.toBaseAgent input hI).andThen (fun h result hI => ?_) (fun _ _ h => h)
    refine (hT.outside (outside_check _ _ _ _) hI).andThen (fun h sc hI => ?_) (fun _ _ h => h)
    exact keeps_pure (T := T) hI
  unfold SelfCheckAgent.run
  refine (hT.outside (asks_ofExcept _) hI).andThen (fun h messages hI => ?_) (fun _ _ h => h)
  refine (hchecked messages hI).andThen (fun h first hI => ?_) (fun _ _ h => h)
  split
  · refine (hchecked messages hI).andThen (fun h retry hI => ?_) (fun _ _ h => h)
    split
    · exact keeps_pure (T := T) hI
    · exact keeps_pure (T := T) hI
  · exact keeps_pure (T := T) hI

/-- What the loop keeps, every agent keeps. -/
theorem agent (hT : Steady T I ctx) (agent : Agent) (input : Value) (hI : I h) :
    Keeps T (fun h' _ => I h') h (agent.run input ctx) := by
  cases agent with
  | base a => exact hT.loop a input hI
  | guarded g => exact hT.guarded g input hI
  | selfCheck a => exact hT.selfCheck a input hI
  | tree t => exact hT.outside (outside_tree t input) hI

end Steady

/-! ## An event follows each completion -/

/-- What an agent announced and got so far. -/
structure Ledger where
  called : List Charge
  returned : List Charge

def Ledger.add (h : Ledger) (e : Answered Ask Answer) : Ledger :=
  ⟨h.called ++ calledAt e, h.returned ++ chargedAt e⟩

/-- The charges in `waiting` have no event yet. -/
def Ledger.Waits (h : Ledger) (waiting : List Charge) : Prop := h.returned = h.called ++ waiting

def Ledger.Even (h : Ledger) : Prop := h.Waits []

/-- A half of the event of a call. -/
def Reports (charge : Charge) (q : Ask) : Prop :=
  ∃ body, carried? body = some charge ∧ (q = .append body ∨ q = .announce body)

/-- At each question all completions have their events, or the question reports
the only one that has none. -/
def announcing : Terms Ask Answer Ledger where
  note := Ledger.add
  given _ e := ¬ Unseen 0 e
  may h q := h.Even ∨ ∃ charge, h.Waits [charge] ∧ Reports charge q

theorem Ledger.Even.may {h : Ledger} (heven : h.Even) (q : Ask) : announcing.may h q :=
  Or.inl heven

variable {a : BaseAgent} {ctx : Context} {α : Type} {h : Ledger}

theorem add_mute {q : Ask} (hq : Mute q) (answer : Answer q) : h.add ⟨q, answer⟩ = h := by
  unfold Ledger.add
  rw [calledAt_mute hq, chargedAt_mute hq]
  simp

theorem chargedAt_of_none {site : Site} {requests : List Request}
    {answers : Fin requests.length → Except Raised LLMResponse} (h : responses answers = []) :
    chargedAt ⟨.complete site requests, answers⟩ = [] := by
  unfold responses at h
  rw [List.filterMap_eq_nil_iff] at h
  refine List.filterMap_eq_nil_iff.mpr (fun charge hcharge => ?_)
  obtain ⟨i, rfl⟩ := List.mem_ofFn.mp hcharge
  have hnone := h (answers i) (List.mem_ofFn.mpr ⟨i, rfl⟩)
  cases hanswer : answers i with
  | error e => rfl
  | ok response =>
    rw [hanswer] at hnone
    cases hnone

/-- No completion comes back from outside of the loop. -/
theorem responses_outside {site : Site} {requests : List Request}
    {answers : Fin requests.length → Except Raised LLMResponse} (hsite : site ≠ .loop)
    (hgiven : announcing.given h ⟨.complete site requests, answers⟩) : responses answers = [] := by
  by_contra hsome
  exact hgiven (.silent hsite hsome)

theorem outside_keeps {p : Code α} (hp : Asks Outside p) (heven : h.Even) :
    Keeps announcing (fun h' _ => h'.Even) h p := by
  have hsame : Keeps announcing (fun h' _ => h' = h) h p := by
    refine hp.keeps (fun q _ => heven.may q) (fun q answer hq hgiven => ?_)
    rcases hq.mute_or with hmute | ⟨site, requests, rfl, hsite⟩
    · exact add_mute hmute answer
    · have hnone := responses_outside hsite hgiven
      show h.add _ = h
      unfold Ledger.add
      simp [calledAt, chargedAt_of_none hnone]
  exact hsame.weaken (fun h' _ hh => by rw [hh]; exact heven)

/-- After a call of the loop its completion waits, if there is one. -/
theorem complete_waits (request : Request) (heven : h.Even) :
    Keeps announcing
      (fun h' r => match r with
        | .ok response => h'.Waits [chargeOf request response]
        | .error _ => h'.Even) h (complete .loop request) := by
  refine ⟨heven.may _, fun answers _ => ?_⟩
  show match answers 0 with
    | .ok response => (h.add ⟨.complete .loop [request], answers⟩).Waits [chargeOf request response]
    | .error _ => (h.add ⟨.complete .loop [request], answers⟩).Even
  have hreturned : h.returned = h.called := by
    have hwaits : h.returned = h.called ++ [] := heven
    rwa [List.append_nil] at hwaits
  rcases hanswer : answers 0 with e | response
  · simp [Ledger.Even, Ledger.Waits, Ledger.add, calledAt, chargedAt, hanswer, Except.map,
      Except.toOption, hreturned]
  · simp [Ledger.Waits, Ledger.add, calledAt, chargedAt, hanswer, Except.map, Except.toOption,
      hreturned]

/-- The event of a completion that waits settles it. -/
theorem emitLive_settles (hbus : ctx.hasBus = true) (hlive : ctx.replayEvents = [])
    {request : Request} (hmodel : request.model = a.model) {response : LLMResponse}
    (hwaits : h.Waits [chargeOf request response]) :
    Keeps announcing (fun h' _ => h'.Even) h (emitLive ctx (llmCalled a response)) := by
  have hreplay : ctx.replayMode = false := by simp [nodes.Ctx.replayMode, hlive]
  unfold emitLive emit
  simp only [hreplay, hbus, Bool.false_eq_true, if_false, if_true]
  have hcarried : carried? (.agent ctx.nodeId (llmCalled a response)) =
      some (chargeOf request response) := by
    unfold chargeOf
    rw [hmodel]
    rfl
  refine ⟨Or.inr ⟨_, hwaits, _, hcarried, Or.inl rfl⟩, fun stored hstored => ?_⟩
  have hmute : Mute (.append (.agent ctx.nodeId (llmCalled a response))) := trivial
  have hsame : announcing.note h ⟨_, stored⟩ = h := add_mute hmute stored
  rw [hsame]
  cases stored with
  | error e => exact absurd (.refused rfl) hstored
  | ok u =>
    refine ⟨Or.inr ⟨_, hwaits, _, hcarried, Or.inr rfl⟩, fun _ _ => ?_⟩
    show Ledger.Waits _ []
    unfold Ledger.Waits at hwaits ⊢
    rw [List.append_nil]
    show h.returned ++ [] = h.called ++ (carried? (.agent ctx.nodeId (llmCalled a response))).toList
    rw [hwaits, List.append_nil, hcarried]
    rfl

theorem think_even (hbus : ctx.hasBus = true) (hlive : ctx.replayEvents = [])
    (emitPartialOnMaxIterations : Bool) (left : Nat) (messages : List Value) (usage : TokenUsage)
    (records : List ToolCallRecord) (heven : h.Even) :
    Keeps announcing (fun h' _ => h'.Even) h
      (think a ctx emitPartialOnMaxIterations left messages usage records) := by
  induction left generalizing h messages usage records with
  | zero =>
    unfold think
    split
    · exact keeps_pure (T := announcing) heven
    · exact keeps_fail (T := announcing) heven
  | succ left ih =>
    unfold think
    refine (outside_keeps (outside_of_mute mute_enforceBudget) heven).andThen
      (fun h _ heven => ?_) (fun _ _ h => h)
    refine (complete_waits _ heven).andThen (fun h response hwaits => ?_) (fun _ _ h => h)
    refine (emitLive_settles hbus hlive rfl hwaits).andThen (fun h _ heven => ?_) (fun _ _ h => h)
    split
    · exact keeps_pure (T := announcing) heven
    · refine (outside_keeps (outside_of_mute (mute_runTools _)) heven).andThen
        (fun h made heven => ?_) (fun _ _ h => h)
      exact ih _ _ _ heven

theorem run_even (hbus : ctx.hasBus = true) (hlive : ctx.replayEvents = []) (input : Value)
    (heven : h.Even) :
    Keeps announcing (fun h' _ => h'.Even) h (a.run input ctx false) := by
  unfold BaseAgent.run
  split
  · exact think_even hbus hlive _ _ _ _ _ heven
  · exact keeps_fail (T := announcing) heven

/-- While no call gets out of sight, an event follows each completion of every
agent. -/
theorem steady_announcing (hbus : ctx.hasBus = true) (hlive : ctx.replayEvents = []) :
    Steady announcing Ledger.Even ctx where
  outside := outside_keeps
  loop _ input _ heven := run_even hbus hlive input heven

/-! ## The totals of the aggregator -/

/-- What an answer adds to the totals. -/
def totalsAt (registry : ModelCostRegistry) : Answered Ask Answer → Totals
  | ⟨.announce body, _⟩ => eventTotals registry body
  | _ => 0

/-- The aggregator holds the totals of all events that the bus announced, and the
context is the one that the run started with. -/
structure Metered (P : Calls) : Prop where
  bus : P.shared.ctx.hasBus = true
  live : P.shared.ctx.replayEvents = []
  totals : P.shared.aggregator.getTotals P.shared.ctx.runId =
    P.tally (totalsAt P.shared.aggregator.registry)

theorem Metered.init {P : Calls} (h : runSystem.machine.init P) : Metered P := by
  obtain ⟨⟨hbus, hlive, -, registry, hnew⟩, htasks⟩ := h
  refine ⟨hbus, hlive, ?_⟩
  rw [Pool.tally_nil _ htasks, hnew]
  rfl

@[simp] theorem ctx_serve (s : Segment) (e : Answered Ask Answer) : (s.serve e).ctx = s.ctx := by
  unfold Segment.serve
  split <;> rfl

theorem registry_serve (s : Segment) (e : Answered Ask Answer) :
    (s.serve e).aggregator.registry = s.aggregator.registry := by
  unfold Segment.serve
  split
  · exact registry_onEvent _ _ _
  · rfl

theorem getTotals_serve (s : Segment) (e : Answered Ask Answer) :
    (s.serve e).aggregator.getTotals s.ctx.runId =
      s.aggregator.getTotals s.ctx.runId + totalsAt s.aggregator.registry e := by
  obtain ⟨q, answer⟩ := e
  cases q with
  | announce body => exact getTotals_onEvent _ _ _
  | _ => exact (add_zero _).symm

theorem Metered.step {P P' : Calls} {move : Move Empty Job Ask Answer} (h : Metered P)
    (hstep : runSystem.machine.step P move P') : Metered P' := by
  have htally := fun registry => Pool.tally_step (totalsAt registry) hstep
  cases move with
  | start job =>
    obtain ⟨-, rfl⟩ := hstep
    refine ⟨h.bus, h.live, ?_⟩
    rw [htally]
    exact h.totals.trans (add_zero _).symm
  | answer i e =>
    obtain ⟨-, -, hserve⟩ := hstep
    have hctx : P'.shared.ctx = P.shared.ctx := by rw [hserve, ctx_serve]
    have hregistry : P'.shared.aggregator.registry = P.shared.aggregator.registry := by
      rw [hserve, registry_serve]
    refine ⟨by rw [hctx, h.bus], by rw [hctx, h.live], ?_⟩
    rw [hctx, hregistry, htally, ← h.totals, hserve]
    exact getTotals_serve P.shared e
  | turn m => exact m.elim

/-! ## Every call is accounted for -/

theorem foldl_ledger (h : Ledger) (trace : Trace) :
    trace.foldl Ledger.add h = ⟨h.called ++ called trace, h.returned ++ returned trace⟩ := by
  induction trace generalizing h with
  | nil => simp [called, returned]
  | cons e rest ih =>
    rw [List.foldl_cons, ih]
    simp [Ledger.add, called, returned]

/-- What the terms of the events say of a program and its answers. -/
theorem even_or_reports {α : Type} {code : Code α} {trace : Trace}
    (hkept : Keeps announcing (fun h' _ => h'.Even) (trace.foldl Ledger.add ⟨[], []⟩) code) :
    called trace = returned trace ∨
      ∃ charge q next, code = .ask q next ∧ Reports charge q ∧
        returned trace = called trace ++ [charge] := by
  rw [foldl_ledger] at hkept
  simp only [List.nil_append] at hkept
  cases code with
  | done r =>
    have heven : returned trace = called trace ++ [] := hkept
    exact Or.inl (by rw [heven, List.append_nil])
  | ask q next =>
    rcases hkept.1 with heven | ⟨charge, hwaits, hreports⟩
    · have hreturned : returned trace = called trace ++ [] := heven
      exact Or.inl (by rw [hreturned, List.append_nil])
    · exact Or.inr ⟨charge, q, next, rfl, hreports, hwaits⟩

theorem Accounted.of_kept {task : Task Job Ask Answer Raised AgentResult}
    (hkept : Keeps announcing (fun h' _ => h'.Even) (task.trace.foldl Ledger.add ⟨[], []⟩) task.code) :
    (called task.trace <+: returned task.trace ∧
      (returned task.trace).length ≤ (called task.trace).length + 1) ∧
      (task.code.ended → called task.trace = returned task.trace) := by
  rcases even_or_reports hkept with heven | ⟨charge, q, next, hcode, -, hreturned⟩
  · rw [heven]
    exact ⟨⟨List.prefix_refl _, Nat.le_succ _⟩, fun _ => rfl⟩
  · rw [hreturned, hcode]
    refine ⟨⟨List.prefix_append _ _, ?_⟩, fun hended => by cases hended⟩
    rw [List.length_append, List.length_singleton]

theorem tokens_eventTotals (registry : ModelCostRegistry) (body : EventBody) :
    (eventTotals registry body).totalTokens = ((carried? body).toList.map Charge.tokens).sum := by
  cases body with
  | agent nodeId e => cases e <;> rfl
  | _ => rfl

theorem tokens_tally (registry : ModelCostRegistry) (trace : Trace) :
    (tally (totalsAt registry) trace).totalTokens = ((called trace).map Charge.tokens).sum := by
  induction trace with
  | nil => rfl
  | cons e rest ih =>
    have hsplit : tally (totalsAt registry) (e :: rest) =
        totalsAt registry e + tally (totalsAt registry) rest := rfl
    have hone : (totalsAt registry e).totalTokens = ((calledAt e).map Charge.tokens).sum := by
      obtain ⟨q, answer⟩ := e
      cases q with
      | announce body => exact tokens_eventTotals registry body
      | _ => rfl
    rw [hsplit, Totals.tokens_add, ih, hone]
    simp [called]

theorem tokens_tasks (registry : ModelCostRegistry)
    (tasks : List (Task Job Ask Answer Raised AgentResult)) :
    ((tasks.map (fun task => tally (totalsAt registry) task.trace)).sum).totalTokens =
      ((tasks.flatMap (fun task => called task.trace)).map Charge.tokens).sum := by
  induction tasks with
  | nil => rfl
  | cons task rest ih =>
    rw [List.map_cons, List.sum_cons, Totals.tokens_add, ih, tokens_tally]
    simp

/-- In every run in which no call gets out of sight all calls are accounted
for, in every state that it reaches. -/
theorem every_call_is_accounted_for {P : Calls}
    (h : Reachable (runSystem.machine.restrict Seen) P) : Accounted P := by
  obtain ⟨P0, moves, hinit, hrun⟩ := h
  have hstays : ∀ Q move Q', Metered Q → (runSystem.machine.restrict Seen).step Q move Q' →
      Metered Q' := fun _ _ _ hQ hstep => hQ.step hstep.1
  have hend : Metered P := hrun.invariant hstays (.init hinit)
  have hevents : P.Kept (fun _ => announcing) (fun _ => ⟨[], []⟩) (fun _ h' _ => h'.Even) := by
    refine Pool.Kept.run hstays (fun Q job hQ hopen _ => ?_) (fun Q move _ hseen => ?_) hrun
      (.init hinit) (Pool.kept_init hinit.2)
    · obtain ⟨hbus, hlive, -⟩ := Handed.same hopen
      have hsteady : Steady announcing Ledger.Even job.ctx :=
        steady_announcing (by rw [hbus, hQ.bus]) (by rw [hlive, hQ.live])
      exact hsteady.agent job.agent job.input rfl
    · cases move with
      | answer i e =>
        intro task _ hthere _ hunseen
        refine hseen task hthere ?_
        cases hunseen with
        | silent outside returns => exact .silent outside returns
        | refused call => exact .refused call
        | dropped stops fails used => exact absurd rfl used
      | _ => trivial
  have husage : P.Kept (fun _ => spending (fun s e => ¬ Unseen s e)) (fun _ => 0)
      (fun _ => Exact) := by
    refine Pool.Kept.run hstays (fun Q job _ _ _ => agent_exact job.agent job.input)
      (fun Q move _ hseen => ?_) hrun (.init hinit) (Pool.kept_init hinit.2)
    cases move with
    | answer i e =>
      intro task _ hthere _
      have hspent := foldl_tally spentAt 0 task.trace
      rw [zero_add] at hspent
      show ¬ Unseen (task.trace.foldl (fun s e => s + spentAt e) 0) e
      rw [hspent]
      exact hseen task hthere
    | _ => trivial
  have hsettled : ∀ task ∈ P.tasks, task.code.ended → called task.trace = returned task.trace :=
    fun task htask => (Accounted.of_kept (hevents task htask)).2
  refine ⟨fun task htask => (Accounted.of_kept (hevents task htask)).1, hsettled, fun hall => ?_,
    fun task htask result hcode => ?_⟩
  · have hsame : P.tasks.flatMap (fun task => returned task.trace) =
        P.tasks.flatMap (fun task => called task.trace) :=
      List.flatMap_congr (fun task htask => (hsettled task htask (hall task htask)).symm)
    rw [hsame, hend.totals]
    exact tokens_tasks _ _
  · have hexact := husage task htask
    rw [hcode] at hexact
    have hspent := foldl_tally spentAt 0 task.trace
    rw [zero_add] at hspent
    exact Eq.trans hexact hspent

/-! ## Small runs -/

/-- The context of a plain `run()`, with a provider. -/
def plainContext : Context where
  toCtx := { runs.freshCtx "run" with hasBus := true }
  hasProvider := true
  budgetPolicy := none
  costAggregator := true
  ucanToken := none
  host := ⟨⟨fun _ => none, 0⟩, Char.isDigit⟩

def freeRegistry : ModelCostRegistry := ⟨.empty⟩

/-- A run of which one agent has been called, and nothing answered yet. -/
def begun (agent : Agent) (input : Value) : Calls where
  shared := ⟨plainContext, .new freeRegistry⟩
  tasks := [⟨⟨agent, input, plainContext⟩, [], agent.run input plainContext⟩]

theorem reachable_begun (agent : Agent) (input : Value)
    {allowed : Calls → Move Empty Job Ask Answer → Prop}
    (hallowed : ∀ P job, allowed P (.start job)) :
    Reachable (runSystem.machine.restrict allowed) (begun agent input) := by
  refine (reachable_init (s := ⟨⟨plainContext, .new freeRegistry⟩, []⟩) ?_).step
    (a := .start ⟨agent, input, plainContext⟩) ⟨⟨?_, rfl⟩, hallowed _ _⟩
  · exact ⟨⟨rfl, rfl, rfl, freeRegistry, rfl⟩, rfl⟩
  · exact .turn "" 0 false .empty [] ⟨[], none⟩

/-- The model gives `inLoop` to the loop of an agent and `outside` to all other
code, and nothing else fails. -/
def replies (inLoop outside : Except Raised LLMResponse) (s : Segment) : (q : Ask) → Answer q
  | .totals => s.aggregator.getTotals s.ctx.runId
  | .complete site _ => fun _ => if site = .loop then inLoop else outside
  | .append _ => .ok ()
  | .announce _ => ()
  | .execute _ _ => .ok ⟨"", none⟩
  | .validate _ text => .ok ⟨true, some text, none, []⟩
  | .validateInput _ _ => .ok []
  | .validateOutput _ _ => .ok []
  | .sentences text => .ok [text]
  | .scores sentences _ => .ok (sentences.map (fun _ => 0))

theorem serves_replies (inLoop outside : Except Raised LLMResponse) (s : Segment) (q : Ask) :
    runSystem.serves s ⟨q, replies inLoop outside s q⟩
      (s.serve ⟨q, replies inLoop outside s q⟩) := by
  refine ⟨?_, rfl⟩
  cases q <;> trivial

/-- The run in which the model replies so, `n` answers later. -/
def played (agent : Agent) (inLoop outside : Except Raised LLMResponse) (n : Nat) : Calls :=
  (List.replicate n 0).foldl (Pool.play Segment.serve (replies inLoop outside))
    (begun agent (.str "What is six times seven?"))

theorem reachable_played {allowed : Calls → Move Empty Job Ask Answer → Prop}
    (hstart : ∀ P job, allowed P (.start job)) {inLoop outside : Except Raised LLMResponse}
    (hanswer : ∀ P i q, allowed P (.answer i ⟨q, replies inLoop outside P.shared q⟩))
    (agent : Agent) (n : Nat) :
    Reachable (runSystem.machine.restrict allowed) (played agent inLoop outside n) := by
  refine Pool.reachable_plays (I := fun _ => True) (serves_replies inLoop outside)
    (fun P i _ q _ _ _ _ => hanswer P i q) (fun _ _ _ => trivial) ?_ trivial _
  exact reachable_begun agent _ hstart

def unavailable : Raised := ⟨"ProviderUnavailableError", "no answer", true⟩

def asker : BaseAgent := ⟨"asker", none, "You are a helpful assistant.", [], none, 10, 7 / 10, none⟩

/-- An answer that took ten tokens in and five out. -/
def fortyTwo : LLMResponse := ⟨some "FINAL ANSWER: 42", [], some ⟨⟨10, 5, 0⟩, 15⟩, "gpt-4o-mini"⟩

theorem seen_replies (inLoop : Except Raised LLMResponse) (e : Raised) (P : Calls) (i : Nat)
    (q : Ask) : Seen P (.answer i ⟨q, replies inLoop (.error e) P.shared q⟩) := by
  intro task _ hunseen
  generalize hreply : (⟨q, replies inLoop (.error e) P.shared q⟩ : Answered Ask Answer) = answered
    at hunseen
  cases hunseen with
  | silent outside returns =>
    cases hreply
    apply returns
    simp [responses, replies, outside, Except.toOption]
  | refused call => cases hreply
  | dropped stops fails used =>
    cases hreply
    cases fails

/-- One question and one answer: the aggregator has its fifteen tokens. -/
theorem one_answer_is_accounted_for :
    Accounted (played (.base asker) (.ok fortyTwo) (.error unavailable) 3) ∧
      (played (.base asker) (.ok fortyTwo) (.error unavailable) 3).tasks.all (·.code.ended) = true ∧
      ((played (.base asker) (.ok fortyTwo) (.error unavailable) 3).shared.aggregator.getTotals
        "run").totalTokens = 15 := by
  refine ⟨every_call_is_accounted_for ?_, by decide +kernel, by decide +kernel⟩
  exact reachable_played (fun _ _ => trivial) (seen_replies _ _) _ _

def planner : TreeOfThoughtsAgent := ⟨asker, 3, 2, 4, .bfs, 7 / 10, 0⟩

/-- A tree of thoughts finds its answer at once, and the aggregator never hears
of the fifteen tokens. -/
theorem a_tree_of_thoughts_is_not_accounted_for :
    ¬ ∀ P : Calls, Reachable runSystem.machine P → Accounted P := by
  intro hall
  have hrun : Reachable (runSystem.machine.restrict everyStep)
      (played (.tree planner) (.error unavailable) (.ok fortyTwo) 2) :=
    reachable_played (fun _ _ => trivial) (fun _ _ _ => trivial) _ _
  have haccounted := hall _ hrun.of_restrict
  have hended : ∀ task ∈ (played (.tree planner) (.error unavailable) (.ok fortyTwo) 2).tasks,
      task.code.ended = true := by
    have hdone : (played (.tree planner) (.error unavailable) (.ok fortyTwo) 2).tasks.all
        (·.code.ended) = true := by decide +kernel
    simpa using hdone
  have htotal := haccounted.total hended
  revert htotal
  decide +kernel

end orchestra.metering
