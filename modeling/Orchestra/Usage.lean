-- The usage in the result of an agent is what its completions used, unless a
-- guardrail stops the output or the checker draws samples.
import Orchestra.Metering

open dicts programs machine orchestra.events orchestra.costs

namespace orchestra.metering

open orchestra.agents orchestra.thoughts orchestra.selfcheck orchestra.questions
open Program

/-! ## Questions that cost nothing -/

/-- A question that brings no completion and announces no call. -/
def Mute : Ask → Prop
  | .complete _ _ => False
  | .announce body => carried? body = none
  | _ => True

theorem chargedAt_mute {q : Ask} (h : Mute q) (answer : Answer q) : chargedAt ⟨q, answer⟩ = [] := by
  cases q with
  | complete site requests => exact h.elim
  | _ => rfl

theorem calledAt_mute {q : Ask} (h : Mute q) (answer : Answer q) : calledAt ⟨q, answer⟩ = [] := by
  cases q with
  | announce body =>
    have hnone : carried? body = none := h
    simp only [calledAt, hnone, Option.toList_none]
  | _ => rfl

variable {a : BaseAgent} {ctx : Context}

theorem mute_runTools (calls : List agent.ToolCall) : Asks Mute (runTools a ctx calls) :=
  asks_runTools ⟨fun _ hbody => ⟨trivial, hbody⟩, fun _ _ _ _ => trivial⟩ calls

theorem mute_enforceBudget : Asks Mute (enforceBudget ctx) := asks_enforceBudget trivial

theorem mute_runChain (chain : List Validator) (text : String)
    (violations : List GuardrailViolation) : Asks Mute (runChain chain text violations) :=
  asks_runChain (fun _ _ => trivial) chain text violations

/-- A question that is mute, or goes to the model from outside of the loop of
`BaseAgent.run`. -/
def Outside : Ask → Prop
  | .complete site _ => site ≠ .loop
  | q => Mute q

theorem Outside.of_mute {q : Ask} (h : Mute q) : Outside q := by
  cases q with
  | complete site requests => exact h.elim
  | _ => exact h

theorem Outside.mute_or {q : Ask} (h : Outside q) :
    Mute q ∨ ∃ site requests, q = .complete site requests ∧ site ≠ .loop := by
  cases q with
  | complete site requests => exact Or.inr ⟨site, requests, rfl, h⟩
  | _ => exact Or.inl h

/-! ## What is spent -/

/-- The history is what the completions used so far. -/
def spending (given : TokenUsage → Answered Ask Answer → Prop) : Terms Ask Answer TokenUsage where
  note spent e := spent + spentAt e
  given
  may _ _ := True

/-- The result has the usage of all completions that were paid for. -/
def Exact (spent : TokenUsage) : Except Raised AgentResult → Prop
  | .ok result => result.tokenUsage.getD .zero = spent
  | .error _ => True

variable {given : TokenUsage → Answered Ask Answer → Prop} {α : Type} {spent : TokenUsage}

/-- A question that is not for the model. -/
def Costless : Ask → Prop
  | .complete _ _ => False
  | _ => True

theorem Costless.of_mute {q : Ask} (h : Mute q) : Costless q := by
  cases q with
  | complete site requests => exact h
  | _ => trivial

theorem costless_spends_nothing {p : Code α} (hp : Asks Costless p) :
    Keeps (spending given) (fun s _ => s = spent) spent p := by
  refine hp.keeps (fun _ _ => trivial) (fun q answer hq _ => ?_)
  show spent + spentAt ⟨q, answer⟩ = spent
  cases q with
  | complete site requests => exact hq.elim
  | _ => exact add_zero spent

theorem mute_spends_nothing {p : Code α} (hp : Asks Mute p) :
    Keeps (spending given) (fun s _ => s = spent) spent p :=
  costless_spends_nothing (hp.mono (fun _ => Costless.of_mute))

/-- What several answers used. -/
def costOf (answers : List (Except Raised LLMResponse)) : TokenUsage :=
  ((answers.filterMap Except.toOption).map (·.spent)).sum

theorem usageOf_eq (answers : List (Except Raised LLMResponse)) (usage : TokenUsage) :
    usageOf answers usage = usage + costOf answers := by
  unfold usageOf costOf
  induction answers generalizing usage with
  | nil => exact (add_zero _).symm
  | cons answer rest ih =>
    rw [List.foldl_cons, ih]
    cases answer with
    | error e => rfl
    | ok response => exact add_assoc usage response.spent _

theorem gather_spends {site : Site} {requests : List Request} :
    Keeps (spending given)
      (fun s r => ∃ answers, r = .ok answers ∧ answers.length = requests.length ∧
        s = spent + costOf answers) spent (gather site requests) := by
  refine ⟨trivial, fun answers _ => ?_⟩
  exact ⟨List.ofFn answers, rfl, List.length_ofFn, rfl⟩

theorem complete_spends {site : Site} {request : Request} :
    Keeps (spending given)
      (fun s r => ∀ response, r = .ok response → s = spent + response.spent) spent
      (complete site request) := by
  refine ⟨trivial, fun answers _ => ?_⟩
  intro response hok
  have hanswer : answers 0 = .ok response := hok
  show spent + spentAt ⟨.complete site [request], answers⟩ = spent + response.spent
  have hsum : spentAt ⟨.complete site [request], answers⟩ = response.spent := by
    simp [spentAt, returnedAt, responses, hanswer, Except.toOption]
  rw [hsum]

/-! ## The loop of an agent -/

theorem think_exact (emitPartialOnMaxIterations : Bool) (left : Nat) (messages : List Value)
    (records : List ToolCallRecord) :
    Keeps (spending given) Exact spent
      (think a ctx emitPartialOnMaxIterations left messages spent records) := by
  induction left generalizing spent messages records with
  | zero =>
    unfold think
    split
    · exact keeps_pure (T := spending given) rfl
    · exact keeps_fail (T := spending given) trivial
  | succ left ih =>
    unfold think
    refine (mute_spends_nothing mute_enforceBudget).andThen (fun s _ hs => ?_) (fun _ _ _ => trivial)
    subst hs
    refine complete_spends.andThen (fun s' response hpaid => ?_) (fun _ _ _ => trivial)
    have hs' : s' = s.add response.spent := hpaid response rfl
    subst hs'
    have hevent : Keeps (spending given) (fun t _ => t = s.add response.spent)
        (s.add response.spent) (emitLive ctx (llmCalled a response)) :=
      costless_spends_nothing (asks_emitLive ⟨trivial, trivial⟩)
    refine hevent.andThen (fun t _ ht => ?_) (fun _ _ _ => trivial)
    subst ht
    split
    · exact keeps_pure (T := spending given) rfl
    · refine (mute_spends_nothing (mute_runTools _)).andThen (fun t made ht => ?_)
        (fun _ _ _ => trivial)
      subst ht
      exact ih _ _

/-- Whatever the model and the tools do, the result of the agent has the usage
of all its completions. -/
theorem run_exact (input : Value) (emitPartialOnMaxIterations : Bool) :
    Keeps (spending given) Exact 0 (a.run input ctx emitPartialOnMaxIterations) := by
  unfold BaseAgent.run
  split
  · exact think_exact _ _ _ _
  · exact keeps_fail (T := spending given) trivial

/-! ## Guardrails on the output -/

/-- A chain that does not pass was stopped by one of its guardrails. -/
theorem runChain_spends (hgiven : ∀ s e, given s e → ¬ Unseen s e) (chain : List Validator)
    (text : String) (violations : List GuardrailViolation) :
    Keeps (spending given)
      (fun s r => s = spent ∧ ∀ verdict, r = .ok verdict → verdict.passed = false → spent = 0) spent
      (runChain chain text violations) := by
  induction chain generalizing text violations with
  | nil =>
    refine keeps_pure (T := spending given) ⟨rfl, fun verdict hok hfails => ?_⟩
    cases hok
    cases hfails
  | cons g rest ih =>
    unfold runChain
    refine ⟨trivial, fun answer hanswer => ?_⟩
    have hsame : (spending given).note spent ⟨.validate g text, answer⟩ = spent := add_zero spent
    rw [hsame]
    cases answer with
    | error e =>
      refine keeps_fail (T := spending given) ⟨rfl, fun verdict hok => ?_⟩
      cases hok
    | ok result =>
      show Keeps _ _ _ (if result.passed then _ else _)
      by_cases hpassed : result.passed = true
      · rw [if_pos hpassed]
        exact ih _ _
      · rw [if_neg hpassed]
        have hstop : Stops g → spent = 0 := by
          intro hg
          by_contra hused
          exact hgiven _ _ hanswer (.dropped hg (by simpa using hpassed) hused)
        rcases hfail : g.onFail with _ | _ | _ | _ | _
        · exact keeps_pure (T := spending given) ⟨rfl, fun _ _ _ => hstop (Or.inl hfail)⟩
        · exact ih _ _
        · exact ih _ _
        · exact keeps_pure (T := spending given) ⟨rfl, fun _ _ _ => hstop (Or.inr hfail)⟩
        · refine keeps_fail (T := spending given) ⟨rfl, fun verdict hok => ?_⟩
          cases hok

theorem tokenUsage_withOutput (result : AgentResult) (output : Option String) :
    (result.withOutput output).tokenUsage = result.tokenUsage := by
  unfold AgentResult.withOutput
  split
  · split
    · rfl
    · rfl
  · rfl

/-- A guarded agent that nothing stops reports the usage of its one attempt. One
that is stopped has used nothing yet, so each attempt starts at zero. -/
theorem attempts_exact (hgiven : ∀ s e, given s e → ¬ Unseen s e) (g : GuardedAgent)
    (input : Value) (left : Nat) : Keeps (spending given) Exact 0 (attempts g ctx input left) := by
  induction left with
  | zero => exact keeps_fail (T := spending given) trivial
  | succ left ih =>
    unfold attempts
    refine (run_exact input false).andThen (fun s result hexact => ?_) (fun _ _ _ => trivial)
    split
    · exact keeps_pure (T := spending given) hexact
    · refine (runChain_spends hgiven _ _ _).andThen (fun s' verdict hverdict => ?_)
        (fun _ _ _ => trivial)
      obtain ⟨rfl, hstopped⟩ := hverdict
      by_cases hpassed : verdict.passed = true
      · rw [if_pos hpassed]
        refine keeps_pure (T := spending given) ?_
        show (result.withOutput verdict.output).tokenUsage.getD .zero = s'
        rw [tokenUsage_withOutput]
        exact hexact
      · rw [if_neg hpassed]
        have hnothing : s' = 0 := hstopped verdict rfl (by simpa using hpassed)
        subst hnothing
        split
        · exact ih
        · exact keeps_pure (T := spending given) rfl

theorem guarded_exact (hgiven : ∀ s e, given s e → ¬ Unseen s e) (g : GuardedAgent)
    (input : Value) : Keeps (spending given) Exact 0 (g.run input ctx) := by
  unfold GuardedAgent.run
  split
  · exact attempts_exact hgiven g _ _
  · rename_i chain _
    rcases extractInputText input with e | text
    · exact keeps_fail (T := spending given) trivial
    show Keeps _ _ _ (runChain chain text [] >>= _)
    refine (mute_spends_nothing (mute_runChain _ _ _)).andThen (fun s verdict hs => ?_)
      (fun _ _ _ => trivial)
    subst hs
    split
    · exact attempts_exact hgiven g _ _
    · exact keeps_pure (T := spending given) rfl

/-! ## The checker -/

/-- Without an answer to its samples the checker finds no risk. -/
theorem check_finds_nothing (hgiven : ∀ s e, given s e → ¬ Unseen s e) (c : SelfChecker)
    (model : Option String) (response : String) (messages : List Value) :
    Keeps (spending given)
      (fun s r => s = spent ∧ ∀ sc, r = .ok sc → sc.hallucinationRisk = "low") spent
      (c.check model response messages) := by
  unfold SelfChecker.check
  refine ⟨trivial, fun answer _ => ?_⟩
  have hsame : (spending given).note spent ⟨.sentences response, answer⟩ = spent := add_zero spent
  rw [hsame]
  have hlow : ∀ usage, Keeps (spending given)
      (fun s r => s = spent ∧ ∀ sc, r = .ok sc → sc.hallucinationRisk = "low") spent
      (pure (c.emptyResult response usage) : Code SelfCheckResult) := by
    intro usage
    refine keeps_pure (T := spending given) ⟨rfl, fun sc hok => ?_⟩
    cases hok
    rfl
  cases answer with
  | error e =>
    refine keeps_fail (T := spending given) ⟨rfl, fun sc hok => ?_⟩
    cases hok
  | ok split =>
    show Keeps _ _ _ (if _ then _ else _)
    split
    · exact hlow .zero
    · refine ⟨trivial, fun answers hanswers => ?_⟩
      have hnone : responses answers = [] := by
        by_contra hsome
        exact hgiven _ _ hanswers (.silent (by decide) hsome)
      have hsame : (spending given).note spent ⟨.complete .sampling _, answers⟩ = spent := by
        show spent + ((responses answers).map (·.spent)).sum = spent
        rw [hnone]
        exact add_zero spent
      rw [hsame]
      have hempty : SelfChecker.passages (List.ofFn answers) = [] := by
        unfold SelfChecker.passages
        refine List.filterMap_eq_nil_iff.mpr (fun answer hmem => ?_)
        have hnone := List.filterMap_eq_nil_iff.mp hnone answer hmem
        cases answer with
        | error e => rfl
        | ok response => cases hnone
      show Keeps _ _ _ (if (SelfChecker.passages (List.ofFn answers)).isEmpty then _ else _)
      rw [hempty]
      exact hlow _

theorem selfCheck_exact (hgiven : ∀ s e, given s e → ¬ Unseen s e) (a : SelfCheckAgent)
    (input : Value) : Keeps (spending given) Exact 0 (a.run input ctx) := by
  unfold SelfCheckAgent.run
  rcases samplingMessages a.systemPrompt input with e | messages
  · exact keeps_fail (T := spending given) trivial
  have hchecked : Keeps (spending given)
      (fun s r => ∀ first, r = .ok first →
        first.1.tokenUsage.getD .zero = s ∧ first.2.hallucinationRisk = "low") 0
      (a.checkedRun input ctx messages) := by
    unfold SelfCheckAgent.checkedRun
    refine (run_exact input false).andThen (fun s result hexact => ?_) (fun _ _ _ _ hok => by cases hok)
    refine (check_finds_nothing hgiven _ _ _ _).andThen (fun s' sc hsc => ?_)
      (fun _ _ _ _ hok => by cases hok)
    obtain ⟨rfl, hlow⟩ := hsc
    refine keeps_pure (T := spending given) (fun first hok => ?_)
    cases hok
    exact ⟨hexact, hlow sc rfl⟩
  refine hchecked.andThen (fun s first hfirst => ?_) (fun _ _ _ => trivial)
  obtain ⟨hexact, hlow⟩ := hfirst first rfl
  have hkeep : ¬ (first.2.hallucinationRisk = "high" ∧ a.retryOnHighRisk = true) := by
    rw [hlow]
    exact fun h => absurd h.1 (by decide)
  rw [if_neg hkeep]
  exact keeps_pure (T := spending given) hexact

/-! ## The tree of thoughts -/

/-- The evaluations of a level used what the answers of the model used. -/
theorem usage_evaluations (candidates : List ThoughtNode)
    (answers : List (Except Raised LLMResponse))
    (h : answers.length = (candidates.filter (fun node => !node.isFinal)).length) :
    ((evaluations candidates answers).map (fun e => e.2.getD .zero)).sum = costOf answers := by
  induction candidates generalizing answers with
  | nil =>
    have hnil : answers = [] := List.length_eq_zero_iff.mp h
    subst hnil
    rfl
  | cons node rest ih =>
    unfold evaluations
    by_cases hfinal : node.isFinal = true
    · have hrest : answers.length = (rest.filter (fun node => !node.isFinal)).length := by
        simpa [hfinal] using h
      rw [if_pos hfinal, List.map_cons, List.sum_cons, ih answers hrest]
      exact zero_add _
    · rw [if_neg hfinal]
      have hcons : answers.length = (rest.filter (fun node => !node.isFinal)).length + 1 := by
        simpa [hfinal] using h
      cases answers with
      | nil => cases hcons
      | cons answer answers =>
        have hrest := Nat.succ.inj hcons
        cases answer with
        | ok response =>
          simp only [List.map_cons, List.sum_cons, ih answers hrest]
          rfl
        | error e =>
          simp only [List.map_cons, List.sum_cons, ih answers hrest]
          exact zero_add _

theorem usage_assess (s : Assessment) (evaluated : List Evaluation) :
    (evaluated.foldl assess s).usage =
      s.usage + (evaluated.map (fun e => e.2.getD .zero)).sum := by
  induction evaluated generalizing s with
  | nil => exact (add_zero _).symm
  | cons e rest ih =>
    have hone : (assess s e).usage = s.usage + e.2.getD .zero := by
      unfold assess
      simp only
      split
      · rfl
      · split <;> rfl
    rw [List.foldl_cons, ih, hone, List.map_cons, List.sum_cons, add_assoc]

section

variable (t : TreeOfThoughtsAgent) (isDigit : Char → Bool) (problem : String)

theorem evaluateAll_spends (candidates : List ThoughtNode) :
    Keeps (spending given)
      (fun s r => ∀ evaluated, r = .ok evaluated →
        s = spent + (evaluated.map (fun e => e.2.getD .zero)).sum) spent
      (evaluateAll t problem candidates) := by
  unfold evaluateAll
  refine gather_spends.andThen (fun s answers hpaid => ?_) (fun _ _ _ _ hok => by cases hok)
  obtain ⟨_, hsame, hlength, hs⟩ := hpaid
  cases hsame
  refine keeps_pure (T := spending given) (fun evaluated hok => ?_)
  cases hok
  rw [usage_evaluations candidates answers (by rw [hlength, List.length_map]), hs]

/-- A search returns what it used. -/
def Used (s : TokenUsage) : Except Raised (Option ThoughtNode × TokenUsage) → Prop
  | .ok found => found.2 = s
  | .error _ => True

theorem bfsFrom_used (left : Nat) (frontier : List ThoughtNode) :
    Keeps (spending given) Used spent (bfsFrom t isDigit problem left frontier spent) := by
  induction left generalizing spent frontier with
  | zero => exact keeps_pure (T := spending given) rfl
  | succ left ih =>
    unfold bfsFrom
    refine gather_spends.andThen (fun s answers hpaid => ?_) (fun _ _ _ => trivial)
    obtain ⟨_, hsame, -, hs⟩ := hpaid
    cases hsame
    rw [← usageOf_eq] at hs
    subst hs
    dsimp only
    split
    · exact keeps_pure (T := spending given) rfl
    refine (evaluateAll_spends t problem _).andThen (fun s evaluated hpaid => ?_)
      (fun _ _ _ => trivial)
    have hs := hpaid evaluated rfl
    have husage := usage_assess ⟨none, [], usageOf answers spent⟩ evaluated
    rw [← hs] at husage
    subst husage
    split
    · exact keeps_pure (T := spending given) rfl
    · split
      · exact keeps_pure (T := spending given) rfl
      · exact ih _

/-- What lies under a node on the stack uses what it says, and so does the search
from the node on. -/
theorem dfsFrom_used (left : Nat) (node : ThoughtNode)
    {rest : Option ThoughtNode → TokenUsage → Code (Option ThoughtNode × TokenUsage)}
    (hrest : ∀ best s, Keeps (spending given) Used s (rest best s)) (best : Option ThoughtNode) :
    Keeps (spending given) Used spent (dfsFrom t isDigit problem left node rest best spent) := by
  induction left generalizing spent node rest best with
  | zero => exact hrest _ _
  | succ left ih =>
    unfold dfsFrom
    split
    · exact hrest _ _
    refine complete_spends.andThen (fun s response hpaid => ?_) (fun _ _ _ => trivial)
    have hs := hpaid response rfl
    subst hs
    refine (evaluateAll_spends t problem _).andThen (fun s evaluated hpaid => ?_)
      (fun _ _ _ => trivial)
    have hs := hpaid evaluated rfl
    have husage := usage_assess ⟨best, [], spent.add response.spent⟩ evaluated
    rw [add_eq, ← hs] at husage
    subst husage
    dsimp only
    split
    · exact keeps_pure (T := spending given) rfl
    · -- The stack is built from its bottom on, one pushed node over the other.
      generalize (List.mergeSort _ _ : List ThoughtNode) = pushed
      have hstack : ∀ best s, Keeps (spending given) Used s
          (pushed.foldl (fun rest child => dfsFrom t isDigit problem left child rest) rest best s) := by
        clear * - ih hrest
        induction pushed generalizing rest with
        | nil => exact hrest
        | cons child pushed ihp => exact ihp (fun best s => ih child hrest best)
      exact hstack none _

/-- Whatever the model answers, a tree of thoughts reports the usage of all its
completions. -/
theorem tree_exact (input : Value) : Keeps (spending given) Exact 0 (t.run input ctx) := by
  unfold TreeOfThoughtsAgent.run
  split
  swap
  · exact keeps_fail (T := spending given) trivial
  rcases resolveProblem input with e | problem
  · exact keeps_fail (T := spending given) trivial
  have hend : ∀ best s, Keeps (spending given) Used s
      (pure (best, s) : Code (Option ThoughtNode × TokenUsage)) := fun _ _ => rfl
  have hsearch : Keeps (spending given) Used 0 (search t ctx.host.isDigit problem) := by
    unfold search
    split
    · exact bfsFrom_used t _ problem _ _
    · exact dfsFrom_used t _ problem _ _ hend none
  have hresult : ∀ s found, Used s (.ok found) →
      Keeps (spending given) Exact s (pure (searchResult t found.1 found.2) : Code AgentResult) := by
    intro s found hused
    have hs : found.2 = s := hused
    refine keeps_pure (T := spending given) ?_
    show TokenUsage.zero.add found.2 = s
    rw [hs]
    exact zero_add s
  exact hsearch.andThen hresult (fun _ _ _ => trivial)

end

/-- While no call gets out of sight, every agent reports the usage of all its
completions. -/
theorem agent_exact (agent : Agent) (input : Value) :
    Keeps (spending (fun s e => ¬ Unseen s e)) Exact 0 (agent.run input ctx) := by
  cases agent with
  | base a => exact run_exact input false
  | guarded g => exact guarded_exact (fun _ _ h => h) g input
  | selfCheck a => exact selfCheck_exact (fun _ _ h => h) a input
  | tree t => exact tree_exact t input

end orchestra.metering
