-- The policies of a run are upheld in every run whose moves do not get past them.
-- After a resume there are none.
import Orchestra.Policies

open dicts programs machine orchestra.state orchestra.events orchestra.costs
open orchestra.nodes hiding AgentResult

namespace orchestra.policies

open orchestra.agents orchestra.questions orchestra.metering
open Program

/-! ## The guardrails check each node -/

section Guardrails

variable {call : NodeCall} {trace : Trace} {p' : Code PyDict}

/-- The engine itself is at work: it asks a question of its own, or it has raised or
refused. -/
inductive ByEngine : Code PyDict → Prop
  | asks {q : Ask} {next : Answer q → Code PyDict} (h : ¬ OfAgent q) : ByEngine (.ask q next)
  | raised (e : Raised) : ByEngine (.done (.error e))
  | refused (what : String) {violations : List String} (h : violations ≠ []) :
    ByEngine (.done (.ok (refusal what violations)))

theorem asks_askAll {ok : Ask → Prop} {checks : List (Code (List String))}
    (h : ∀ check ∈ checks, Asks ok check) : Asks ok (askAll checks) := by
  induction checks with
  | nil => exact asks_pure _
  | cons check rest ih =>
    unfold askAll
    refine asks_bind (h check List.mem_cons_self) (fun found => ?_)
    refine asks_bind (ih (fun c hc => h c (List.mem_cons_of_mem _ hc))) (fun more => ?_)
    exact asks_pure _

theorem asks_inputViolations {ok : Ask → Prop} {messages : List Value}
    (h : ∀ g, ok (.validateInput g messages)) (guardrails : List Guardrail) :
    Asks ok (inputViolations guardrails messages) := by
  unfold inputViolations
  split
  · exact asks_pure _
  · refine asks_askAll (fun check hcheck => ?_)
    obtain ⟨g, -, rfl⟩ := List.mem_map.mp hcheck
    exact asks_bind (asks_query (h g)) (fun _ => asks_ofExcept _)

theorem asks_outputViolations {ok : Ask → Prop} {output : String}
    (h : ∀ g, ok (.validateOutput g output)) (guardrails : List Guardrail) :
    Asks ok (outputViolations guardrails output) := by
  unfold outputViolations
  split
  · exact asks_pure _
  · refine asks_askAll (fun check hcheck => ?_)
    obtain ⟨g, -, rfl⟩ := List.mem_map.mp hcheck
    exact asks_bind (asks_query (h g)) (fun _ => asks_ofExcept _)

theorem asks_announce {ok : Ask → Prop} {ctx : Context} {body : EventBody} (h : Tells ok body) :
    Asks ok (announce ctx body) := by
  unfold announce
  split
  · refine asks_bind (asks_query h.1) (fun stored => ?_)
    split
    · exact asks_query h.2
    · exact asks_pure _
  · exact asks_pure _

theorem asks_reject {ok : Ask → Prop} {ctx : Context} {body : EventBody} (h : Tells ok body)
    (what : String) (violations : List String) : Asks ok (reject ctx what body violations) := by
  unfold reject
  refine asks_bind (asks_announce h) (fun _ => ?_)
  split
  · exact asks_fail _
  · exact asks_pure _

/-- Checks that find nothing all together find nothing each. -/
theorem askAll_passes {checks : List (Code (List String))}
    (h : Path (askAll checks) trace (.done (.ok []))) :
    ∀ check ∈ checks, ∃ u, u <:+: trace ∧ Path check u (.done (.ok [])) := by
  induction checks generalizing trace with
  | nil => exact fun check hcheck => nomatch hcheck
  | cons check rest ih =>
    unfold askAll at h
    generalize hend : (.done (.ok []) : Code (List String)) = ended at h
    cases h.split with
    | asks _ => cases hend
    | fails _ => cases hend
    | goes hcheck hmore =>
      rename_i t u found
      cases hmore.split with
      | asks _ => cases hend
      | fails _ => cases hend
      | goes hrest hdone =>
        rename_i v w more
        cases hdone
        have hnil : [] = found ++ more := Except.ok.inj (Program.done.inj hend)
        obtain ⟨rfl, rfl⟩ := List.append_eq_nil_iff.mp hnil.symm
        intro c hc
        rcases List.mem_cons.mp hc with rfl | hc
        · exact ⟨t, (List.prefix_append _ _).isInfix, hcheck⟩
        · obtain ⟨u', hu', hpath⟩ := ih hrest c hc
          exact ⟨u', hu'.trans ((List.prefix_append _ _).isInfix.trans
            (List.suffix_append _ _).isInfix), hpath⟩

theorem path_validateInput {messages : List Value} {g : Guardrail}
    (h : Path (validateInput messages g) trace (.done (.ok []))) :
    trace = [⟨.validateInput g messages, Except.ok []⟩] := by
  cases h with
  | answer a rest =>
    cases rest
    rfl

theorem path_validateOutput {output : String} {g : Guardrail}
    (h : Path (validateOutput output g) trace (.done (.ok []))) :
    trace = [⟨.validateOutput g output, Except.ok []⟩] := by
  cases h with
  | answer a rest =>
    cases rest
    rfl

theorem inputPassed_of_path {guardrails : List Guardrail} {messages : List Value}
    (h : Path (inputViolations guardrails messages) trace (.done (.ok []))) :
    InputPassed guardrails messages trace := by
  intro hmessages g hg hlooks
  unfold inputViolations at h
  rw [if_neg (by simpa using hmessages)] at h
  have hcheck : validateInput messages g ∈
      (guardrails.filter (·.validateInput.isSome)).map (validateInput messages) :=
    List.mem_map_of_mem (List.mem_filter.mpr ⟨hg, hlooks⟩)
  obtain ⟨u, hu, hpath⟩ := askAll_passes h _ hcheck
  rw [path_validateInput hpath] at hu
  exact hu.subset (List.mem_singleton.mpr rfl)

theorem outputPassed_of_path {guardrails : List Guardrail} {output : String}
    (h : Path (outputViolations guardrails output) trace (.done (.ok []))) :
    OutputPassed guardrails output trace := by
  intro houtput g hg hlooks
  unfold outputViolations at h
  rw [if_neg houtput] at h
  have hcheck : validateOutput output g ∈
      (guardrails.filter (·.validateOutput.isSome)).map (validateOutput output) :=
    List.mem_map_of_mem (List.mem_filter.mpr ⟨hg, hlooks⟩)
  obtain ⟨u, hu, hpath⟩ := askAll_passes h _ hcheck
  rw [path_validateOutput hpath] at hu
  exact hu.subset (List.mem_singleton.mpr rfl)

/-- A rejection is not an event of an agent. -/
theorem engine_tells {body : EventBody} (hbody : ∀ nodeId e, body ≠ .agent nodeId e) :
    Tells (fun q => ¬ OfAgent q) body := by
  have hno : ¬ ∃ nodeId e, body = .agent nodeId e := fun ⟨nodeId, e, h⟩ => hbody nodeId e h
  exact ⟨hno, hno⟩

theorem byEngine_reject {ctx : Context} {what : String} {body : EventBody}
    {violations : List String} (hsome : violations ≠ [])
    (hbody : ∀ nodeId e, body ≠ .agent nodeId e)
    (h : Path (reject ctx what body violations) trace p') : ByEngine p' := by
  unfold reject at h
  cases h.split with
  | asks hasks => exact .asks ((asks_announce (engine_tells hbody)).path hasks)
  | fails hfails => exact .raised _
  | goes _ hrest =>
    split at hrest
    · cases hrest
      exact .raised _
    · cases hrest
      exact .refused what hsome

/-- After the agent the engine is at work, until the output has passed. -/
theorem path_finishNode {result : AgentResult} (h : Path (finishNode call result) trace p') :
    ByEngine p' ∨ ∃ update, p' = .done (.ok update) ∧ mapResult call result = .ok update ∧
      OutputPassed call.ctx.config.guardrails result.output trace := by
  have hengine : Asks (fun q => ¬ OfAgent q)
      (outputViolations call.ctx.config.guardrails result.output) :=
    asks_outputViolations (fun _ => id) _
  unfold finishNode at h
  cases h.split with
  | asks hasks => exact Or.inl (.asks (hengine.path hasks))
  | fails hfails => exact Or.inl (.raised _)
  | goes hchecks hrest =>
    rename_i t u violations
    split at hrest
    · rename_i hsome
      exact Or.inl (byEngine_reject hsome (fun _ _ => EventBody.noConfusion) hrest)
    · rename_i hnone
      obtain rfl : violations = [] := not_not.mp hnone
      cases hrest
      cases mapResult call result with
      | error e => exact Or.inl (.raised e)
      | ok update =>
        refine Or.inr ⟨update, rfl, rfl, ?_⟩
        rw [List.append_nil]
        exact outputPassed_of_path hchecks

/-- Before the agent the engine is at work, until the input has passed. -/
theorem path_executeAgentNode (h : Path (executeAgentNode call) trace p') :
    ByEngine p' ∨ ∃ input t u, call.input = .ok input ∧ trace = t ++ u ∧
      InputPassed call.ctx.config.guardrails (guardMessages input) t ∧
      Path (call.node.agent.run input call.ctx >>= finishNode call) u p' := by
  unfold executeAgentNode at h
  cases h.split with
  | asks hasks => cases hasks
  | fails hfails => exact Or.inl (.raised _)
  | goes hinput hrest =>
    rename_i v w input
    obtain ⟨rfl, hgiven⟩ : v = [] ∧ call.input = .ok input := by
      cases hcall : call.input with
      | error e =>
        rw [hcall] at hinput
        cases hinput
      | ok value =>
        rw [hcall] at hinput
        cases hinput
        exact ⟨rfl, rfl⟩
    have hengine : Asks (fun q => ¬ OfAgent q)
        (inputViolations call.ctx.config.guardrails (guardMessages input)) :=
      asks_inputViolations (fun _ => id) _
    cases hrest.split with
    | asks hasks => exact Or.inl (.asks (hengine.path hasks))
    | fails hfails => exact Or.inl (.raised _)
    | goes hchecks hagent =>
      rename_i t u violations
      split at hagent
      · rename_i hsome
        exact Or.inl (byEngine_reject hsome (fun _ _ => EventBody.noConfusion) hagent)
      · rename_i hnone
        obtain rfl : violations = [] := not_not.mp hnone
        exact Or.inr ⟨input, t, u, hgiven, rfl, inputPassed_of_path hchecks, hagent⟩

theorem InputPassed.append {guardrails : List Guardrail} {messages : List Value} {t : Trace}
    (h : InputPassed guardrails messages t) (u : Trace) : InputPassed guardrails messages (t ++ u) :=
  fun hmessages g hg hlooks => List.mem_append_left u (h hmessages g hg hlooks)

theorem ByEngine.checked {guardrails : List Guardrail} {code : Code PyDict} (h : ByEngine code) :
    Checked guardrails ⟨call, trace, code⟩ := by
  cases h with
  | asks hengine =>
    refine ⟨fun q next hcode hagent => ?_, fun update hcode => by cases hcode⟩
    cases hcode
    exact absurd hagent hengine
  | raised e => exact ⟨fun q next hcode _ => (by cases hcode), fun update hcode => by cases hcode⟩
  | refused what hsome =>
    refine ⟨fun q next hcode _ => (by cases hcode), fun update hcode => ?_⟩
    cases hcode
    exact Or.inl ⟨what, _, hsome, rfl⟩

/-- However an agent node is answered, the guardrails of its context check it. -/
theorem checked_of_path {code : Code PyDict} (h : Path (executeAgentNode call) trace code) :
    Checked call.ctx.config.guardrails ⟨call, trace, code⟩ := by
  rcases path_executeAgentNode h with hengine | ⟨input, t, u, hinput, rfl, hpassed, hrest⟩
  · exact hengine.checked
  have hbefore := hpassed.append u
  cases hrest.split with
  | asks hasks => exact ⟨fun _ _ _ _ => ⟨input, hinput, hbefore⟩, fun _ hcode => by cases hcode⟩
  | fails hfails => exact (ByEngine.raised _).checked
  | goes hagent hfinish =>
    rename_i v w result
    rcases path_finishNode hfinish with hengine | ⟨update, rfl, hmap, hafter⟩
    · exact hengine.checked
    refine ⟨fun _ _ hcode _ => (by cases hcode), fun update' hcode => ?_⟩
    cases hcode
    refine Or.inr ⟨input, result, ⟨hinput, hbefore, ⟨v, ?_, hagent⟩, ?_⟩, hmap⟩
    · exact ⟨t, w, by simp⟩
    · intro houtput g hg hlooks
      exact List.mem_append_right _ (List.mem_append_right _ (hafter houtput g hg hlooks))

end Guardrails

/-! ## A check before each call of the loop -/

section Checks

variable {policy : Option BudgetPolicy} {ctx : Context} {last : Option (Answered Ask Answer)}

/-- The last answer was that of the aggregator, and the policy lets it pass. -/
def Allows (policy : Option BudgetPolicy) (last : Option (Answered Ask Answer)) : Prop :=
  ∀ p ∈ policy, ∃ totals : Totals, last = some ⟨.totals, totals⟩ ∧
    p.hardHit totals.totalCostUsd totals.totalTokens = false

/-- The loop calls the model only right after a check that passed. -/
def checking (policy : Option BudgetPolicy) :
    Terms Ask Answer (Option (Answered Ask Answer)) where
  note _ e := some e
  given _ _ := True
  may last q := ∀ requests, q = .complete .loop requests → Allows policy last

/-- No call of the model from the loop. -/
def Idle (q : Ask) : Prop := ∀ requests, q ≠ .complete .loop requests

theorem Idle.of_outside {q : Ask} (h : Outside q) : Idle q := by
  rintro requests rfl
  exact h rfl

theorem idle_checking {α : Type} {p : Code α} (hp : Asks Idle p) :
    Keeps (checking policy) (fun _ _ => True) last p := by
  induction p generalizing last with
  | done r => trivial
  | ask q next ih =>
    exact ⟨fun requests hq => absurd hq (hp.1 requests), fun a _ => ih a (hp.2 a)⟩

theorem enforceBudget_allows (hagg : ctx.costAggregator = true) :
    Keeps (checking ctx.budgetPolicy)
      (fun last r => ∀ u, r = .ok u → Allows ctx.budgetPolicy last) last (enforceBudget ctx) := by
  unfold enforceBudget
  cases ctx.budgetPolicy with
  | none => exact fun _ _ p hp => nomatch hp
  | some policy =>
    unfold currentTotals
    rw [if_pos hagg]
    refine ⟨fun _ hq => (by cases hq), fun totals _ u hu p hp => ?_⟩
    obtain rfl : policy = p := Option.some.inj hp
    refine ⟨totals, rfl, (policy.enforce_ok_iff _ _).mp ?_⟩
    cases henforce : policy.enforce totals.totalCostUsd totals.totalTokens with
    | error e =>
      rw [henforce] at hu
      cases hu
    | ok result => exact ⟨result, rfl⟩

theorem idle_tells (body : EventBody) : Tells Idle body :=
  ⟨fun _ => Ask.noConfusion, fun _ => Ask.noConfusion⟩

theorem idle_runTools {a : BaseAgent} (calls : List agent.ToolCall) :
    Asks Idle (runTools a ctx calls) :=
  asks_runTools ⟨fun body _ => idle_tells body, fun _ _ _ _ _ => Ask.noConfusion⟩ calls

theorem think_checking (hagg : ctx.costAggregator = true) (a : BaseAgent)
    (emitPartialOnMaxIterations : Bool) (left : Nat) (messages : List Value) (usage : TokenUsage)
    (records : List ToolCallRecord) :
    Keeps (checking ctx.budgetPolicy) (fun _ _ => True) last
      (think a ctx emitPartialOnMaxIterations left messages usage records) := by
  induction left generalizing last messages usage records with
  | zero =>
    unfold think
    split
    · trivial
    · trivial
  | succ left ih =>
    unfold think
    refine (enforceBudget_allows hagg).andThen (fun last _ hallows => ?_) (fun _ _ _ => trivial)
    refine ⟨fun _ _ => hallows () rfl, fun answers _ => ?_⟩
    refine Keeps.andThen (idle_checking (asks_ofExcept _)) (fun last response _ => ?_)
      (fun _ _ _ => trivial)
    refine (idle_checking (asks_emitLive (idle_tells _))).andThen (fun last _ _ => ?_)
      (fun _ _ _ => trivial)
    split
    · trivial
    · refine (idle_checking (idle_runTools _)).andThen (fun last made _ => ?_)
        (fun _ _ _ => trivial)
      exact ih _ _ _

theorem steady_checking (hagg : ctx.costAggregator = true) :
    Steady (checking ctx.budgetPolicy) (fun _ => True) ctx where
  outside hp _ := idle_checking (hp.mono (fun _ => Idle.of_outside))
  loop a input _ _ := by
    unfold BaseAgent.run
    split
    · exact think_checking hagg a _ _ _ _ _
    · trivial

end Checks

/-! ## What every agent node keeps -/

section Nodes

variable {κ : Type} {T : Terms Ask Answer κ} {I : κ → Prop} {h : κ} {call : NodeCall}

theorem outside_reject (ctx : Context) (what : String) {body : EventBody}
    (hbody : carried? body = none) (violations : List String) :
    Asks Outside (reject ctx what body violations) :=
  asks_reject ⟨trivial, hbody⟩ what violations

/-- What the agents keep, the nodes keep. -/
theorem steady_node (hT : Steady T I call.ctx) (hI : I h) :
    Keeps T (fun h' _ => I h') h (executeAgentNode call) := by
  unfold executeAgentNode
  refine (hT.outside (asks_ofExcept _) hI).andThen (fun h input hI => ?_) (fun _ _ h => h)
  refine (hT.outside (asks_inputViolations (fun _ => trivial) _) hI).andThen
    (fun h violations hI => ?_) (fun _ _ h => h)
  split
  · exact hT.outside (outside_reject _ _ rfl _) hI
  refine (hT.agent call.node.agent input hI).andThen (fun h result hI => ?_) (fun _ _ h => h)
  unfold finishNode
  refine (hT.outside (asks_outputViolations (fun _ => trivial) _) hI).andThen
    (fun h post hI => ?_) (fun _ _ h => h)
  split
  · exact hT.outside (outside_reject _ _ rfl _) hI
  · exact hT.outside (asks_ofExcept _) hI

end Nodes

/-! ## What a run keeps -/

abbrev courseMachine : Machine Segments (Move Resumption NodeCall Ask Answer) :=
  courseSystem.machine

variable {P P' : Segments} {move : Move Resumption NodeCall Ask Answer}

theorem given_step (hstep : courseMachine.step P move P') : P'.shared.given = P.shared.given := by
  cases move with
  | start call =>
    obtain ⟨-, rfl⟩ := hstep
    rfl
  | answer i e =>
    obtain ⟨-, -, hserve⟩ := hstep
    rw [hserve]
    unfold Course.serve
    split <;> rfl
  | turn r =>
    obtain ⟨⟨-, -, hturn⟩, -⟩ := hstep
    rw [hturn]

theorem first_step (hstep : courseMachine.step P move P') : P'.shared.first = P.shared.first := by
  unfold Course.first
  rw [given_step hstep]

theorem registry_step (hstep : courseMachine.step P move P') :
    P'.shared.segment.aggregator.registry = P.shared.segment.aggregator.registry := by
  cases move with
  | start call =>
    obtain ⟨-, rfl⟩ := hstep
    rfl
  | answer i e =>
    obtain ⟨-, -, hserve⟩ := hstep
    rw [hserve]
    unfold Course.serve
    split
    · exact registry_serve _ _
    · rfl
  | turn r =>
    obtain ⟨⟨-, -, hturn⟩, -⟩ := hstep
    rw [hturn]

/-- What every run keeps whose moves do not get past the policies. -/
structure Sound (P : Segments) : Prop where
  begins : P.shared.resumes = 0 → P.shared.segment.ctx = P.shared.first
  ended : 0 < P.shared.resumes → ∀ task ∈ P.tasks, task.code.ended = true
  handed : ∀ task ∈ P.tasks, Handed P.shared.first task.job.ctx
  inside : ∀ task ∈ P.tasks, ∀ site requests next, task.code = .ask (.complete site requests) next →
    site = .loop
  totals : P.shared.segment.aggregator.getTotals P.shared.given.runId =
    P.tally (totalsAt P.shared.segment.aggregator.registry)

theorem Sound.init (h : courseMachine.init P) : Sound P := by
  obtain ⟨⟨hnone, hctx, registry, hnew⟩, htasks⟩ := h
  have hempty : ∀ task ∈ P.tasks, False := by
    intro task htask
    rw [htasks] at htask
    cases htask
  refine ⟨fun _ => hctx, fun hlater => ?_, fun task htask => (hempty task htask).elim,
    fun task htask => (hempty task htask).elim, ?_⟩
  · omega
  · rw [Pool.tally_nil _ htasks, hnew]
    rfl

/-- A task that still asks is one of the first segment. -/
theorem Sound.resumes_eq (h : Sound P) {task : NodeTask} (htask : task ∈ P.tasks) {q : Ask}
    {next : Answer q → Code PyDict} (hcode : task.code = .ask q next) : P.shared.resumes = 0 := by
  by_contra hlater
  have hended := h.ended (Nat.pos_of_ne_zero hlater) task htask
  rw [hcode] at hended
  cases hended

/-- A node only starts in the first segment of a run that is no replay. -/
theorem Abides.start {call : NodeCall} (h : Abides P (.start call)) :
    P.shared.resumes = 0 ∧ P.shared.given.replayEvents = [] := by
  constructor
  · by_contra hlater
    exact h (.resumed (Nat.pos_of_ne_zero hlater))
  · by_contra hreplay
    exact h (.replayed hreplay)

theorem Abides.site {site : Site} {requests : List Request} (h : Abides P move)
    (hposes : P.Poses courseSystem move (.complete site requests)) : site = .loop := by
  by_contra hsite
  exact h (.unchecked hposes hsite)

theorem Sound.totals_step (h : Sound P) (hstep : courseMachine.step P move P') :
    P'.shared.segment.aggregator.getTotals P'.shared.given.runId =
      P'.tally (totalsAt P'.shared.segment.aggregator.registry) := by
  rw [given_step hstep, registry_step hstep, Pool.tally_step _ hstep, ← h.totals]
  cases move with
  | start call =>
    obtain ⟨-, rfl⟩ := hstep
    exact (add_zero _).symm
  | answer i e =>
    obtain ⟨hanswer, -, hserve⟩ := hstep
    generalize P'.tasks = tasks at hanswer
    obtain ⟨hthere, hasks⟩ := hanswer
    have hfirst := h.resumes_eq (List.mem_of_getElem? hthere) hasks
    have hrun : P.shared.segment.ctx.runId = P.shared.given.runId := by
      rw [h.begins hfirst]
      rfl
    rw [hserve]
    unfold Course.serve
    rw [if_pos hfirst, ← hrun]
    exact getTotals_serve P.shared.segment e
  | turn r =>
    obtain ⟨⟨-, -, hturn⟩, -⟩ := hstep
    rw [hturn]
    exact (add_zero _).symm

theorem Sound.begins_step (h : Sound P) (hstep : courseMachine.step P move P') :
    P'.shared.resumes = 0 → P'.shared.segment.ctx = P'.shared.first := by
  intro hfirst
  rw [first_step hstep]
  cases move with
  | start call =>
    obtain ⟨-, rfl⟩ := hstep
    exact h.begins hfirst
  | answer i e =>
    obtain ⟨-, -, hserve⟩ := hstep
    rw [hserve] at hfirst ⊢
    unfold Course.serve at hfirst ⊢
    split at hfirst
    · rename_i hzero
      rw [if_pos hzero]
      exact (ctx_serve _ _).trans (h.begins hzero)
    · rename_i hlater
      exact absurd hfirst hlater
  | turn r =>
    obtain ⟨⟨-, -, hturn⟩, -⟩ := hstep
    rw [hturn] at hfirst
    cases hfirst

theorem Sound.ended_step (h : Sound P) (hstep : courseMachine.step P move P')
    (habides : Abides P move) : 0 < P'.shared.resumes → ∀ task ∈ P'.tasks, task.code.ended = true := by
  intro hlater task htask
  cases move with
  | start call =>
    obtain ⟨-, rfl⟩ := hstep
    have hsame : 0 < P.shared.resumes := hlater
    rw [habides.start.1] at hsame
    exact absurd hsame (Nat.lt_irrefl 0)
  | answer i e =>
    obtain ⟨hanswer, -, hserve⟩ := hstep
    generalize P'.tasks = tasks at hanswer
    obtain ⟨hthere, hasks⟩ := hanswer
    have hfirst := h.resumes_eq (List.mem_of_getElem? hthere) hasks
    rw [hserve] at hlater
    unfold Course.serve at hlater
    rw [if_pos hfirst] at hlater
    have hsame : 0 < P.shared.resumes := hlater
    rw [hfirst] at hsame
    exact absurd hsame (Nat.lt_irrefl 0)
  | turn r =>
    obtain ⟨⟨hended, -⟩, htasks⟩ := hstep
    rw [htasks] at htask
    exact hended task htask

theorem Sound.step (h : Sound P) (hstep : (courseMachine.restrict Abides).step P move P') :
    Sound P' := by
  obtain ⟨hstep, habides⟩ := hstep
  refine ⟨h.begins_step hstep, h.ended_step hstep habides, fun task htask => ?_,
    fun task htask site requests next hcode => ?_, h.totals_step hstep⟩
  · rw [first_step hstep]
    cases Pool.came hstep htask with
    | old hold => exact h.handed task hold
    | started hopen =>
      have hhanded : Handed P.shared.segment.ctx _ := hopen
      rw [h.begins habides.start.1] at hhanded
      exact hhanded
    | answered hthere hasks =>
      have hbefore := h.handed _ (List.mem_of_getElem? hthere)
      exact hbefore
  · rcases Pool.asked_or_poses hstep htask hcode with hold | hposes
    · exact h.inside task hold site requests next hcode
    · exact habides.site hposes

theorem Sound.of_reachable (h : Reachable (courseMachine.restrict Abides) P) : Sound P :=
  h.invariant (fun _ hinit => .init hinit) (fun _ _ _ hsound hstep => hsound.step hstep)

/-! ## What has been spent -/

theorem eventTotals_eq (registry : ModelCostRegistry) (body : EventBody) :
    eventTotals registry body = ((carried? body).toList.map (priced registry)).sum := by
  cases body with
  | agent nodeId e =>
    cases e with
    | llmCalled agentName model content toolCalls inputTokens outputTokens costUsd finishReason =>
      exact (add_zero _).symm
    | _ => rfl
  | _ => rfl

theorem totalsAt_eq (registry : ModelCostRegistry) (e : Answered Ask Answer) :
    totalsAt registry e = ((calledAt e).map (priced registry)).sum := by
  obtain ⟨q, answer⟩ := e
  cases q with
  | announce body => exact eventTotals_eq registry body
  | _ => rfl

/-- The completions of a trace cost what its events say, when each has its event. -/
theorem tally_cost {registry : ModelCostRegistry} {trace : Trace}
    (heven : called trace = returned trace) :
    tally (costAt registry) trace = tally (totalsAt registry) trace := by
  have htotals : totalsAt registry = fun e => ((calledAt e).map (priced registry)).sum :=
    funext (totalsAt_eq registry)
  calc tally (costAt registry) trace
      = ((returned trace).map (priced registry)).sum := tally_flatMap chargedAt _ _
    _ = ((called trace).map (priced registry)).sum := by rw [heven]
    _ = tally (totalsAt registry) trace := by
      rw [htotals]
      exact (tally_flatMap calledAt _ _).symm

/-- While no event of a call is on its way the aggregator knows what has been
spent. -/
theorem Sound.spent_eq (h : Sound P)
    (heven : ∀ task ∈ P.tasks, called task.trace = returned task.trace) :
    spent P = P.shared.segment.aggregator.getTotals P.shared.given.runId := by
  rw [h.totals]
  unfold spent Pool.tally
  congr 1
  exact List.map_congr_left (fun task htask => tally_cost (heven task htask))

theorem spent_step (hstep : courseMachine.step P move P') : spent P' =
    spent P + move.weight (costAt P.shared.segment.aggregator.registry) := by
  unfold spent
  rw [registry_step hstep]
  exact Pool.tally_step _ hstep

/-! ## The policies are upheld -/

theorem Sound.context (h : Sound P) {task : NodeTask} (htask : task ∈ P.tasks) :
    task.job.ctx.hasBus = true ∧ task.job.ctx.costAggregator = true ∧
      task.job.ctx.budgetPolicy = P.shared.given.budgetPolicy ∧
      task.job.ctx.config = P.shared.given.config := by
  obtain ⟨hbus, -, -, hpolicy, hagg, -, hconfig, -⟩ := (h.handed task htask).same
  exact ⟨hbus, hagg, hpolicy, hconfig⟩

/-- An event follows each completion, as in `run()`. -/
theorem kept_announcing (h : Reachable (courseMachine.restrict Abides) P) :
    P.Kept (fun _ => announcing) (fun _ => ⟨[], []⟩) (fun _ h' _ => h'.Even) := by
  obtain ⟨P0, moves, hinit, hrun⟩ := h
  refine Pool.Kept.run (I := Sound) (fun _ _ _ hsound hstep => hsound.step hstep)
    (fun Q call hsound hopen habides => ?_) (fun Q move hsound habides => ?_) hrun (.init hinit)
    (Pool.kept_init hinit.2)
  · obtain ⟨hfirst, hlive⟩ := habides.start
    have hhanded : Handed Q.shared.segment.ctx call.ctx := hopen
    rw [hsound.begins hfirst] at hhanded
    obtain ⟨hbus, hreplay, -⟩ := hhanded.same
    exact steady_node (steady_announcing hbus (hreplay.trans hlive)) rfl
  · cases move with
    | answer i e =>
      intro task next hthere hasks hunseen
      cases hunseen with
      | silent outside returns =>
        exact outside (hsound.inside task (List.mem_of_getElem? hthere) _ _ _ hasks)
      | refused call => exact habides (.refused call)
      | dropped stops fails used => exact used rfl
    | _ => trivial

/-- Each call of the loop comes right after a check that passed. -/
theorem kept_checking (h : Reachable (courseMachine.restrict Abides) P) :
    P.Kept (fun call => checking call.ctx.budgetPolicy) (fun _ => none) (fun _ _ _ => True) := by
  obtain ⟨P0, moves, hinit, hrun⟩ := h
  refine Pool.Kept.run (I := Sound) (fun _ _ _ hsound hstep => hsound.step hstep)
    (fun Q call hsound hopen habides => ?_) (fun Q move _ _ => ?_) hrun (.init hinit)
    (Pool.kept_init hinit.2)
  · have hhanded : Handed Q.shared.segment.ctx call.ctx := hopen
    rw [hsound.begins habides.start.1] at hhanded
    obtain ⟨-, -, -, -, hagg, -⟩ := hhanded.same
    exact steady_node (steady_checking hagg) trivial
  · cases move with
    | answer i e => exact fun _ _ _ _ => trivial
    | _ => trivial

/-- At a check no event of a call is on its way. -/
theorem even_at_check {i : Nat} {totals : Totals}
    (h : Reachable (courseMachine.restrict Abides) P)
    (habides : Abides P (.answer i ⟨.totals, totals⟩)) :
    ∀ task ∈ P.tasks, called task.trace = returned task.trace := by
  intro task htask
  rcases even_or_reports (kept_announcing h task htask) with heven | ⟨charge, q, next, hcode, hreports, -⟩
  · exact heven
  · exact absurd (.overtaken htask hcode hreports) habides

theorem foldl_last (trace : Trace) :
    trace.foldl (fun _ e => some e) (none : Option (Answered Ask Answer)) = trace.getLast? := by
  induction trace using List.reverseRecOn with
  | nil => rfl
  | append_singleton trace e _ => simp

/-- The model is called only when what was spent is below the limits. -/
theorem within_budget (h : Reachable (courseMachine.restrict Abides) P)
    (hstep : (courseMachine.restrict Abides).step P move P') : WithinBudget P move P' := by
  intro policy hpolicy site requests hposes
  have hsound := Sound.of_reachable h
  have hsound' := Sound.of_reachable (h.step hstep)
  obtain rfl : site = .loop := hstep.2.site hposes
  -- The task that calls has just been told that the limits are not reached.
  obtain ⟨task, htask, ⟨next, hcode⟩, hlast⟩ := hposes.lands hstep.1
  have hkept := kept_checking (h.step hstep) task htask
  rw [hcode] at hkept
  have hallows : Allows task.job.ctx.budgetPolicy (task.trace.foldl (fun _ e => some e) none) :=
    hkept.1 requests rfl
  rw [foldl_last, hlast, (hsound'.context htask).2.2.1, given_step hstep.1] at hallows
  obtain ⟨totals, hmove, hunder⟩ := hallows policy hpolicy
  cases move with
  | start call => cases hmove
  | turn r => cases hmove
  | answer i e =>
    obtain rfl : e = ⟨.totals, totals⟩ := Option.some.inj hmove
    -- What it was told is what has been spent.
    have hspent := hsound.spent_eq (even_at_check h hstep.2)
    have hsame : spent P' = spent P := by
      rw [spent_step hstep.1]
      exact add_zero _
    obtain ⟨hanswer, htruthful, -⟩ := hstep.1
    have htold : totals = spent P := by
      generalize P'.tasks = tasks at hanswer
      obtain ⟨hthere, hasks⟩ := hanswer
      have hfirst := hsound.resumes_eq (List.mem_of_getElem? hthere) hasks
      have hrun : P.shared.segment.ctx.runId = P.shared.given.runId := by
        rw [hsound.begins hfirst]
        rfl
      rw [hspent, ← hrun]
      exact htruthful
    rw [hsame, ← htold]
    exact hunder

/-- In every run whose moves do not get past the policies they are upheld, in every
state that it reaches. -/
theorem policies_are_upheld (h : Reachable (courseMachine.restrict Abides) P) :
    Upheld (courseMachine.restrict Abides) P where
  checked := by
    intro task htask
    have hchecked := checked_of_path (Pool.follows h.of_restrict task htask)
    rw [((Sound.of_reachable h).context htask).2.2.2] at hchecked
    exact hchecked
  within move P' hstep := within_budget h hstep

/-! ## Small runs -/

/-- A guardrail that has nothing against any text. -/
def tolerant : Guardrail := ⟨"tolerant", some (fun _ => .ok []), some (fun _ => .ok [])⟩

/-- A limit of ten tokens. -/
def tenTokens : BudgetPolicy := ⟨none, none, none, some 10, none⟩

def guardedContext : Context :=
  { plainContext with
    config := ⟨[tolerant], "refuse"⟩
    budgetPolicy := some tenTokens }

def beginning : Course := ⟨guardedContext, 0, ⟨guardedContext, .new freeRegistry⟩⟩

/-- The call of a node with an agent, in the first turn of a segment. -/
def askingCall (segment : Context) : NodeCall where
  schema := none
  nodeId := "asker"
  node := ⟨.base asker, none, false, none, none⟩
  state := Dict.ofList [("input", .str "What is six times seven?")]
  ctx := { segment with
    nodeId := "asker"
    turnNumber := 1
    restrictedMode := false
    loopCounters := .empty
    nodeExecutionOrder := []
    moment := ⟨[], none⟩ }

theorem handed_asking (segment : Context) : Handed segment (askingCall segment).ctx :=
  .turn "asker" 1 false .empty [] ⟨[], none⟩

/-- The run of which one node has been called, `n` answers later. -/
def guardedRun (n : Nat) : Segments :=
  (List.replicate n 0).foldl
    (Pool.play Course.serve (fun c => replies (.ok fortyTwo) (.error unavailable) c.segment))
    ⟨beginning, [⟨askingCall guardedContext, [], executeAgentNode (askingCall guardedContext)⟩]⟩

/-- A question that calls the model, if it does, from the loop. -/
def InLoop (q : Ask) : Prop := ∀ site requests, q = .complete site requests → site = .loop

theorem inLoop_of_other {q : Ask} (h : ∀ site requests, q ≠ .complete site requests) : InLoop q :=
  fun site requests hq => absurd hq (h site requests)

theorem inLoop_tells (body : EventBody) : Tells InLoop body :=
  ⟨inLoop_of_other (fun _ _ => Ask.noConfusion), inLoop_of_other (fun _ _ => Ask.noConfusion)⟩

theorem inLoop_base (call : NodeCall) (a : BaseAgent) (hbase : call.node.agent = .base a) :
    Asks InLoop (executeAgentNode call) := by
  have hloop : LoopQuestions InLoop a call.ctx :=
    ⟨inLoop_of_other (fun _ _ => Ask.noConfusion), fun _ _ _ hq => by cases hq; rfl, inLoop_tells,
      fun _ _ _ _ _ => inLoop_of_other (fun _ _ => Ask.noConfusion)⟩
  unfold executeAgentNode
  refine asks_bind (asks_ofExcept _) (fun input => ?_)
  refine asks_bind (asks_inputViolations
    (fun _ => inLoop_of_other (fun _ _ => Ask.noConfusion)) _) (fun violations => ?_)
  split
  · exact asks_reject (inLoop_tells _) _ _
  rw [hbase]
  refine asks_bind (asks_run hloop input) (fun result => ?_)
  unfold finishNode
  refine asks_bind (asks_outputViolations
    (fun _ => inLoop_of_other (fun _ _ => Ask.noConfusion)) _) (fun post => ?_)
  split
  · exact asks_reject (inLoop_tells _) _ _
  · exact asks_ofExcept _

/-- One node was called, and its agent calls the model only from the loop. -/
def Single (P : Segments) : Prop := ∃ task, P.tasks = [task] ∧ Asks InLoop task.code

theorem Single.task_eq (h : Single P) {t u : NodeTask} (ht : t ∈ P.tasks) (hu : u ∈ P.tasks) :
    t = u := by
  obtain ⟨task, htasks, -⟩ := h
  rw [htasks] at ht hu
  rw [List.mem_singleton.mp ht, List.mem_singleton.mp hu]

/-- While only one node was called, each answer abides by the policies that is no
refusal of the store. -/
theorem Single.abides (h : Single P) {i : Nat} {task : NodeTask} {q : Ask}
    {next : Answer q → Code PyDict} (hthere : P.tasks[i]? = some task)
    (hasks : task.code = .ask q next) (answer : Answer q)
    (htaken : ∀ body e, (⟨q, answer⟩ : Answered Ask Answer) ≠ ⟨.append body, Except.error e⟩) :
    Abides P (.answer i ⟨q, answer⟩) := by
  intro hbypasses
  generalize hmove : (Move.answer i ⟨q, answer⟩ : Move Resumption NodeCall Ask Answer) = move
    at hbypasses
  cases hbypasses with
  | resumed _ => cases hmove
  | replayed _ => cases hmove
  | unchecked calls outside =>
    have hall : ∀ t ∈ P.tasks, Asks InLoop t.code := by
      obtain ⟨only, htasks, honly⟩ := h
      intro t ht
      rw [htasks] at ht
      rw [List.mem_singleton.mp ht]
      exact honly
    have hnone : ∀ call, move = .start call → Asks InLoop (courseSystem.code call) := by
      intro call hcall
      rw [← hmove] at hcall
      cases hcall
    exact outside (calls.asked hnone hall _ _ rfl)
  | refused _ =>
    injection hmove with _ hanswer
    exact htaken _ _ hanswer
  | overtaken there asks reports =>
    injection hmove with _ hanswer
    cases hanswer
    rw [h.task_eq there (List.mem_of_getElem? hthere), hasks] at asks
    cases asks
    obtain ⟨body, -, hbody | hbody⟩ := reports
    · cases hbody
    · cases hbody

theorem Single.play (h : Single P) (serve : Course → Answered Ask Answer → Course)
    (reply : Course → (q : Ask) → Answer q) (i : Nat) : Single (P.play serve reply i) := by
  obtain ⟨task, htasks, hcode⟩ := h
  unfold Pool.play
  split
  · rename_i job trace q next hthere
    rw [htasks] at hthere ⊢
    cases i with
    | zero =>
      obtain rfl : task = ⟨job, trace, .ask q next⟩ := Option.some.inj hthere
      exact ⟨_, rfl, hcode.2 _⟩
    | succ i => cases hthere
  · exact ⟨task, htasks, hcode⟩

theorem reachable_guardedRun (n : Nat) :
    Reachable (courseMachine.restrict Abides) (guardedRun n) := by
  have hcode : Asks InLoop (executeAgentNode (askingCall guardedContext)) :=
    inLoop_base _ asker rfl
  have hserves : ∀ (c : Course) q, courseSystem.serves c
      ⟨q, replies (.ok fortyTwo) (.error unavailable) c.segment q⟩
      (c.serve ⟨q, replies (.ok fortyTwo) (.error unavailable) c.segment q⟩) := by
    intro c q
    exact ⟨(serves_replies _ _ c.segment q).1, rfl⟩
  refine Pool.reachable_plays (I := Single) hserves
    (fun P i task q next hsingle hthere hasks => ?_) (fun P i hsingle => hsingle.play _ _ i) ?_
    ⟨_, rfl, hcode⟩ _
  · refine hsingle.abides hthere hasks _ (fun body e heq => ?_)
    cases q <;> cases heq
  · have hinit : Reachable (courseMachine.restrict Abides) ⟨beginning, []⟩ :=
      reachable_init ⟨⟨rfl, rfl, freeRegistry, rfl⟩, rfl⟩
    have habides : Abides ⟨beginning, []⟩ (.start (askingCall guardedContext)) := by
      intro hbypasses
      generalize hmove : (Move.start (askingCall guardedContext) :
        Move Resumption NodeCall Ask Answer) = move at hbypasses
      cases hbypasses with
      | resumed later => exact absurd later (Nat.lt_irrefl 0)
      | replayed replay => exact replay rfl
      | unchecked calls outside =>
        have hstart : ∀ call, move = .start call → Asks InLoop (courseSystem.code call) := by
          intro call hcall
          rw [← hmove] at hcall
          cases hcall
          exact hcode
        exact outside (calls.asked hstart (fun _ ht => nomatch ht) _ _ rfl)
      | refused _ => cases hmove
      | overtaken _ _ _ => cases hmove
    refine hinit.step (a := .start (askingCall guardedContext)) ⟨⟨?_, rfl⟩, habides⟩
    exact handed_asking guardedContext

/-- A node is checked before and after, and its call is made within the limit, which it
passes. -/
theorem a_guarded_run_is_upheld :
    Upheld (courseMachine.restrict Abides) (guardedRun 6) ∧
      (guardedRun 6).tasks.all (·.code.ended) = true ∧
      (spent (guardedRun 6)).totalTokens = 15 := by
  refine ⟨policies_are_upheld (reachable_guardedRun 6), by decide +kernel, by decide +kernel⟩

/-- A resume of the run after a pause behind its first node. -/
def resumption : Resumption where
  checkpoint := ⟨"run", 3, "asker", .after, .empty, .empty, ["asker"]⟩
  hasProvider := true
  host := plainContext.host

/-- The run was resumed, and no node has been called since. -/
def resumedRun : Segments where
  shared := { (guardedRun 6).shared with
    resumes := (guardedRun 6).shared.resumes + 1
    segment := { (guardedRun 6).shared.segment with ctx := resumption.context } }
  tasks := (guardedRun 6).tasks

def laterCall : NodeCall := askingCall resumption.context

/-- The same agent node is called again. -/
def laterRun : Segments :=
  ⟨resumedRun.shared, resumedRun.tasks ++ [⟨laterCall, [], executeAgentNode laterCall⟩]⟩

theorem reachable_resumedRun : Reachable courseMachine resumedRun := by
  have hrun : Reachable courseMachine (guardedRun 6) := (reachable_guardedRun 6).of_restrict
  have hended : ∀ task ∈ (guardedRun 6).tasks, task.code.ended = true := by
    have hall : (guardedRun 6).tasks.all (·.code.ended) = true := by decide +kernel
    simpa using hall
  have hid : resumption.checkpoint.runId = (guardedRun 6).shared.given.runId := by decide +kernel
  exact hrun.step (a := .turn resumption) ⟨⟨hended, hid, rfl⟩, rfl⟩

theorem given_resumedRun : resumedRun.shared.given = guardedContext := rfl

theorem step_laterRun : courseMachine.step resumedRun (.start laterCall) laterRun :=
  ⟨handed_asking resumption.context, rfl⟩

/-- The node goes to the model at once. -/
theorem laterCall_asks : ∃ requests next,
    executeAgentNode laterCall = .ask (.complete .loop requests) next :=
  ⟨_, _, rfl⟩

/-- After a resume the model is called although fifteen tokens were spent already. -/
theorem a_resume_drops_the_policies :
    ¬ ∀ P : Segments, Reachable courseMachine P → Upheld courseMachine P := by
  intro hall
  obtain ⟨requests, next, hcode⟩ := laterCall_asks
  have hpolicy : tenTokens ∈ resumedRun.shared.given.budgetPolicy := by
    rw [given_resumedRun]
    rfl
  have hwithin := (hall _ reachable_resumedRun).within _ _ step_laterRun tenTokens hpolicy _ _
    (.start hcode)
  revert hwithin
  decide +kernel

end orchestra.policies
