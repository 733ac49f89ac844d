-- The token in the context of an agent and the tools that the agent runs. The
-- agent asks its list without the token, so what the list lets pass is run.
import Orchestra.Accounting

open dicts programs

namespace orchestra.grants

open orchestra.agents orchestra.thoughts orchestra.selfcheck orchestra.questions orchestra.metering
open orchestra.ucan
open Program

/-! ## What the token should govern -/

/-- `is_authorized(tool_name, ucan=token)` of the agent's list, at the time `now`. -/
def authorizedBy (host : Host) (agent : Agent) (toolName : String) (token : Option UCANToken)
    (now : Rat) : Except acl.AclError Bool :=
  acl.isAuthorized { host.toHost with now } (agent.toBase.acl.getD .openAll) toolName token none none

/-- A run of the agent comes to run this tool, with these answers before. -/
def Executes (agent : Agent) (input : Value) (ctx : Context) (trace : Trace) (toolName : String)
    (arguments : PyDict) : Prop :=
  ∃ next, Path (agent.run input ctx) trace (.ask (.execute toolName arguments) next)

/-- In every context with a token that decodes to `U`, whatever the model asks for
and at every time of the run, the agent runs a tool only if its list allows it
with `U`, and none after `U` has expired. -/
structure Governed (agent : Agent) (host : Host) (decode : String → Option UCANToken)
    (U : UCANToken) (during : Rat → Prop) : Prop where
  allowed : ∀ (ctx : Context) input trace toolName arguments now,
    ctx.host = host → ctx.ucanToken.bind decode = some U → during now →
      Executes agent input ctx trace toolName arguments →
        authorizedBy host agent toolName (some U) now = .ok true
  valid : ∀ (ctx : Context) input trace toolName arguments now,
    ctx.host = host → ctx.ucanToken.bind decode = some U → during now →
      Executes agent input ctx trace toolName arguments → U.isExpired now = false

/-- The agent has a loop that asks the model at least once. -/
def Loops : Agent → Prop
  | .base a => 0 < a.maxIterations
  | .guarded g => 0 < g.maxIterations ∧ 0 ≤ g.maxRetries
  | .selfCheck a => 0 < a.maxIterations
  | .tree _ => False

/-! ## What an agent runs -/

/-- A question that runs a tool of the agent only when the list alone allows it. -/
def ByList (agent : Agent) (ctx : Context) : Ask → Prop
  | .execute toolName _ =>
    Loops agent ∧ toolName ∈ agent.toBase.tools ∧ agent.toBase.authorizes ctx toolName = .ok true
  | _ => True

theorem byList_loop (agent : Agent) (ctx : Context)
    (hloops : 0 < agent.toBase.maxIterations → Loops agent) :
    LoopQuestions (ByList agent ctx) agent.toBase ctx where
  totals := trivial
  complete _ := trivial
  tells _ := ⟨trivial, trivial⟩
  execute _ _ hpos htool hlist := ⟨hloops hpos, htool, hlist⟩

/-- Whatever the answers are, an agent runs a tool only when its list allows the
tool without any token. -/
theorem asks_byList (agent : Agent) (input : Value) (ctx : Context) :
    Asks (ByList agent ctx) (agent.run input ctx) := by
  cases agent with
  | base a => exact asks_run (byList_loop (.base a) ctx id) input
  | guarded g =>
    exact asks_guarded (fun _ _ => trivial) g input
      (fun hretries => byList_loop (.guarded g) ctx (fun hpos => ⟨hpos, hretries⟩))
  | selfCheck a =>
    exact asks_selfCheck ⟨fun _ => trivial, fun _ => trivial, fun _ => trivial, fun _ _ => trivial⟩ a
      input (byList_loop (.selfCheck a) ctx id)
  | tree t => exact asks_tree t ⟨fun _ => trivial, fun _ => trivial⟩ input

/-! ## What a model can make an agent run -/

/-- Some answers bring the program to run the tool. -/
def Reaches {α : Type} (p : Code α) (toolName : String) : Prop :=
  ∃ trace arguments next, Path p trace (.ask (.execute toolName arguments) next)

variable {α β : Type} {toolName : String} {a : BaseAgent} {ctx : Context}

theorem Reaches.bind {p : Code α} (h : Reaches p toolName) (f : α → Code β) :
    Reaches (p >>= f) toolName := by
  obtain ⟨trace, arguments, next, hpath⟩ := h
  exact ⟨trace, arguments, _, hpath.bind f⟩

theorem Reaches.after {p : Code α} {trace : Trace} {x : α} {f : α → Code β}
    (hpath : Path p trace (.done (.ok x))) (h : Reaches (f x) toolName) :
    Reaches (p >>= f) toolName := by
  obtain ⟨trace', arguments, next, hpath'⟩ := h
  exact ⟨trace ++ trace', arguments, next, (hpath.bind f).append hpath'⟩

theorem Reaches.answer {q : Ask} {next : Answer q → Code α} (answer : Answer q)
    (h : Reaches (next answer) toolName) : Reaches (.ask q next) toolName := by
  obtain ⟨trace, arguments, next', hpath⟩ := h
  exact ⟨⟨q, answer⟩ :: trace, arguments, next', .answer answer hpath⟩

/-- A context in which the model is asked at once and nothing is announced. -/
structure Bare (ctx : Context) : Prop where
  provider : ctx.hasProvider = true
  budget : ctx.budgetPolicy = none
  quiet : ctx.hasBus = false
  live : ctx.replayEvents = []

theorem reaches_executeTool (hlive : ctx.replayEvents = []) (call : agent.ToolCall)
    (htool : call.name ∈ a.tools) (hlist : a.authorizes ctx call.name = .ok true) :
    Reaches (executeTool a ctx call) call.name := by
  unfold executeTool
  rw [hlive]
  simp only [agent.replayed, hlist, htool, if_true]
  exact ⟨[], call.arguments, _, .stay _⟩

/-- A model that asks for a tool of the agent's list has it run. -/
theorem reaches_run (hbare : Bare ctx) (hloops : 0 < a.maxIterations) (htool : toolName ∈ a.tools)
    (hlist : a.authorizes ctx toolName = .ok true) (input : Value) :
    Reaches (a.run input ctx false) toolName := by
  obtain ⟨left, hleft⟩ : ∃ left, a.maxIterations = left + 1 := ⟨a.maxIterations - 1, by omega⟩
  let call : agent.ToolCall := ⟨"call", toolName, .empty⟩
  let response : LLMResponse := ⟨none, [call], none, ""⟩
  have hbudget : enforceBudget ctx = pure () := by simp only [enforceBudget, hbare.budget]
  have hemit : ∀ e, emitLive ctx e = pure () := by
    intro e
    simp [emitLive, emit, hbare.quiet]
  unfold BaseAgent.run
  rw [if_pos hbare.provider, hleft]
  unfold think
  rw [hbudget, Program.pure_bind', complete_bind]
  refine Reaches.answer (fun _ => .ok response) ?_
  show Reaches (emitLive ctx (llmCalled a response) >>= _) toolName
  rw [hemit, Program.pure_bind']
  refine Reaches.bind (p := runTools a ctx [call]) ?_ _
  exact (reaches_executeTool hbare.live call htool hlist).bind _

/-- A chain whose guardrails all pass lets the text pass. -/
theorem runChain_passes (chain : List Validator) (text : String)
    (violations : List GuardrailViolation) : ∃ trace,
      Path (runChain chain text violations) trace (.done (.ok ⟨true, some text, none, violations⟩)) := by
  induction chain with
  | nil => exact ⟨[], .stay _⟩
  | cons g rest ih =>
    obtain ⟨trace, hpath⟩ := ih
    let passes : Except Raised GuardrailResult := .ok ⟨true, some text, none, []⟩
    refine ⟨⟨.validate g text, passes⟩ :: trace, ?_⟩
    refine Path.answer (A := Answer) (q := Ask.validate g text) passes ?_
    exact hpath

/-- Every agent with a loop runs each tool that its list allows, for a model that
asks for it. -/
theorem reaches_agent (agent : Agent) (hloops : Loops agent) (hbare : Bare ctx)
    (htool : toolName ∈ agent.toBase.tools)
    (hlist : agent.toBase.authorizes ctx toolName = .ok true) :
    Reaches (agent.run (.str "") ctx) toolName := by
  cases agent with
  | base a => exact reaches_run hbare hloops htool hlist _
  | guarded g =>
    have hattempts : ∀ input, Reaches (attempts g ctx input (1 + g.maxRetries).toNat) toolName := by
      intro input
      obtain ⟨left, hleft⟩ : ∃ left, (1 + g.maxRetries).toNat = left + 1 :=
        ⟨g.maxRetries.toNat, by have := hloops.2; omega⟩
      rw [hleft]
      unfold attempts
      exact (reaches_run hbare hloops.1 htool hlist input).bind _
    show Reaches (g.run (.str "") ctx) toolName
    unfold GuardedAgent.run
    split
    · exact hattempts _
    · rename_i chain _
      obtain ⟨trace, hpath⟩ := runChain_passes chain "" []
      show Reaches (runChain chain "" [] >>= _) toolName
      refine Reaches.after hpath ?_
      exact hattempts _
  | selfCheck a =>
    show Reaches (a.checkedRun (.str "") ctx _ >>= _) toolName
    refine Reaches.bind ?_ _
    unfold SelfCheckAgent.checkedRun
    exact (reaches_run hbare hloops htool hlist _).bind _
  | tree t => exact hloops.elim

/-! ## When the token governs the tools -/

/-- A run in which the agent has a token, and nothing else that could stop it. -/
def bareContext (host : Host) (raw : String) : Context where
  toCtx := runs.freshCtx "run"
  hasProvider := true
  budgetPolicy := none
  costAggregator := false
  ucanToken := some raw
  host

theorem bare_bareContext (host : Host) (raw : String) : Bare (bareContext host raw) :=
  ⟨rfl, rfl, rfl, rfl⟩

/-- The list of an agent. -/
def listOf (agent : Agent) : acl.ToolACL := agent.toBase.acl.getD .openAll

/-- Without a token the list alone decides, and the time does not matter. -/
theorem authorizes_iff (agent : Agent) (ctx : Context) :
    agent.toBase.authorizes ctx toolName = .ok true ↔
      (listOf agent).denies toolName = false ∧ (listOf agent).checkAclOnly toolName = true := by
  show acl.isAuthorized ctx.host.toHost (listOf agent) toolName none none none = .ok true ↔ _
  rw [acl.isAuthorized_iff]
  simp

/-- With the token, the token must back the tool too. -/
theorem authorizedBy_iff (host : Host) (agent : Agent) (U : UCANToken) (now : Rat) :
    authorizedBy host agent toolName (some U) now = .ok true ↔
      (listOf agent).denies toolName = false ∧ (listOf agent).checkAclOnly toolName = true ∧
        acl.Backs { host.toHost with now } toolName U := by
  show acl.isAuthorized { host.toHost with now } (listOf agent) toolName (some U) none none =
    .ok true ↔ _
  rw [acl.isAuthorized_iff]
  simp

/-- The token governs what an agent runs exactly if the agent never asks the
model, or if the token backs, all through the run, each tool of the agent that
its list allows. -/
theorem token_governs_iff (agent : Agent) (host : Host) (decode : String → Option UCANToken)
    (U : UCANToken) (during : Rat → Prop) (hdecodes : ∃ raw, decode raw = some U) :
    Governed agent host decode U during ↔
      (Loops agent → ∀ toolName ∈ agent.toBase.tools, (listOf agent).denies toolName = false →
        (listOf agent).checkAclOnly toolName = true →
          ∀ now, during now → acl.Backs { host.toHost with now } toolName U) := by
  constructor
  · intro hgoverned hloops toolName htool hdenies hallows now hnow
    obtain ⟨raw, hraw⟩ := hdecodes
    have hlist : agent.toBase.authorizes (bareContext host raw) toolName = .ok true :=
      (authorizes_iff agent _).mpr ⟨hdenies, hallows⟩
    obtain ⟨trace, arguments, next, hpath⟩ :=
      reaches_agent agent hloops (bare_bareContext host raw) htool hlist
    have hyes := hgoverned.allowed (bareContext host raw) _ trace toolName arguments now rfl hraw
      hnow ⟨next, hpath⟩
    exact ((authorizedBy_iff host agent U now).mp hyes).2.2
  · intro hbacks
    have hruns : ∀ (ctx : Context) input trace toolName arguments now, during now →
        Executes agent input ctx trace toolName arguments →
          authorizedBy host agent toolName (some U) now = .ok true := by
      rintro ctx input trace toolName arguments now hnow ⟨next, hpath⟩
      obtain ⟨hloops, htool, hlist⟩ := (asks_byList agent input ctx).path hpath
      obtain ⟨hdenies, hallows⟩ := (authorizes_iff agent ctx).mp hlist
      rw [authorizedBy_iff]
      exact ⟨hdenies, hallows, hbacks hloops toolName htool hdenies hallows now hnow⟩
    refine ⟨fun ctx input trace toolName arguments now _ _ hnow hexec => ?_,
      fun ctx input trace toolName arguments now _ _ hnow hexec => ?_⟩
    · exact hruns ctx input trace toolName arguments now hnow hexec
    · have hyes := hruns ctx input trace toolName arguments now hnow hexec
      exact ((authorizedBy_iff host agent U now).mp hyes).2.2.valid

/-- An agent with one tool and no list of its own. -/
def worker (toolName : String) : BaseAgent := { asker with tools := [toolName] }

/-- A token for one tool, valid until the time 1000. -/
def searchToken : UCANToken :=
  ⟨"token", "did:key:issuer", "did:key:agent", [⟨"orchestra:tools/search", "tool/invoke", none⟩],
    0, 1000, "nonce", []⟩

def decodeSearch (raw : String) : Option UCANToken :=
  if raw = "token" then some searchToken else none

theorem backs_search (now : Rat) (h : now ≤ 1000) :
    acl.Backs { plainContext.host.toHost with now } "search" searchToken := by
  refine ⟨?_, by decide, by simp [acl.fullChain, searchToken, acl.Narrows]⟩
  have hlate : ¬ (1000 : Rat) < now := not_lt.mpr h
  simpa [UCANToken.isExpired, searchToken] using hlate

theorem one_token_governs_the_search :
    Governed (.base (worker "search")) plainContext.host decodeSearch searchToken (· ≤ 1000) := by
  refine (token_governs_iff _ _ _ _ _ ⟨"token", by decide⟩).mpr ?_
  intro _ toolName htool _ _ now hnow
  obtain rfl : toolName = "search" := by simpa [Agent.toBase, worker] using htool
  exact backs_search now hnow

/-- With a token for the search alone, and after that token has expired, the
agent still runs the shell. -/
theorem a_token_is_not_asked :
    ¬ ∀ (agent : Agent) (host : Host) (decode : String → Option UCANToken) (U : UCANToken)
      (during : Rat → Prop), (∃ raw, decode raw = some U) →
        Governed agent host decode U during := by
  intro hall
  have hgoverned := hall (.base (worker "shell")) plainContext.host decodeSearch searchToken
    (· = 2000) ⟨"token", by decide⟩
  obtain ⟨trace, arguments, next, hpath⟩ :=
    reaches_agent (.base (worker "shell")) (show 0 < (worker "shell").maxIterations by decide)
      (bare_bareContext plainContext.host "token") (List.mem_singleton.mpr rfl) (by decide)
  have hvalid := hgoverned.valid (bareContext plainContext.host "token") _ trace "shell" arguments
    2000 rfl (by decide) rfl ⟨next, hpath⟩
  revert hvalid
  decide +kernel

end orchestra.grants
