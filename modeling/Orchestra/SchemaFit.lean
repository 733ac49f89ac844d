-- The law of the updates that the engine builds on its own: from the output
-- of an agent, for a refusal, for a handoff. Nothing checks their keys against
-- the state class, so the law says exactly when they are fields of it.
import Orchestra.Graph
import Orchestra.Runs
import Orchestra.Turns

open dicts logged machine orchestra.state orchestra.edges orchestra.events orchestra.nodes
open orchestra.compiled orchestra.graph orchestra.turns orchestra.runs

namespace orchestra.schema_fit

variable {G : CompiledGraph} {env : Env} {S : Schema} {schema : Option Schema}

/-! ## Updates that fit -/

/-- An update that the engine builds names only fields of the class. -/
def Fit (S : Schema) : Note → Prop
  | .built keys => ∀ k ∈ keys, k ∈ S.fields
  | _ => True

def AllFit (S : Schema) (log : List Note) : Prop := ∀ n ∈ log, Fit S n

instance (S : Schema) : (n : Note) → Decidable (Fit S n)
  | .built keys => inferInstanceAs (Decidable (∀ k ∈ keys, k ∈ S.fields))
  | .emit _ | .ran _ | .holds _ => isTrue trivial

instance (S : Schema) (log : List Note) : Decidable (AllFit S log) :=
  inferInstanceAs (Decidable (∀ n ∈ log, Fit S n))

/-! ## An agent node -/

/-- A refusal writes to `output` and to `guardrails`. -/
def RefusalFits (S : Schema) (ctx : Ctx) : Prop :=
  ctx.config.guardrailsFail ≠ "raise" → "output" ∈ S.fields ∧ "guardrails" ∈ S.fields

/-- The output of an agent goes to its output key, unless a mapper takes it. -/
def OutputFits (S : Schema) (nodeId : String) (node : AgentNode) (result : AgentResult) : Prop :=
  node.outputMapper = none → result.output ≠ "" → outputKeyOf nodeId node ∈ S.fields

/-- The class has the fields for what the guardrails and the agent answer. -/
def AgentFits (S : Schema) (nodeId : String) (node : AgentNode) (state : PyDict) (ctx : Ctx) :
    Prop :=
  ∀ input, agentInput node state = .ok input →
  ∀ violations, inputViolations ctx.config.guardrails (guardMessages input) = .ok violations →
    (violations ≠ [] → RefusalFits S ctx) ∧
    (violations = [] → ∀ result, (node.run input ctx).result = .ok result →
      ∀ post, (if result.output ≠ "" then outputViolations ctx.config.guardrails result.output
          else .ok []) = .ok post →
        (post ≠ [] → RefusalFits S ctx) ∧ (post = [] → OutputFits S nodeId node result))

theorem fit_outside {α : Type} (r : Except Raised α) : AllFit S (outside r).log := by
  cases r <;> simp [outside, AllFit, Logged.fail]

theorem result_outside {α : Type} (r : Except Raised α) (a : α) :
    (outside r).result = .ok a ↔ r = .ok a := by
  cases r <;> simp [outside, Logged.fail]

theorem fit_reject {ctx : Ctx} {what : String} {body : EventBody} {violations : List String} :
    AllFit S (reject ctx what body violations).log ↔ RefusalFits S ctx := by
  unfold AllFit reject RefusalFits
  rw [Logged.forall_log_bind]
  have hann : ∀ n ∈ (announce ctx body).log, Fit S n := by
    unfold announce
    split
    · simp [emit, Logged.note, Fit]
    · simp
  have hres : (announce ctx body).result = .ok () := by
    unfold announce
    split <;> rfl
  refine ⟨fun h hne => ?_, fun h => ⟨hann, ?_⟩⟩
  · have hlog := h.2 () hres
    rw [if_neg hne] at hlog
    have hb : Fit S (.built ["output", "guardrails"]) := hlog _ (List.mem_singleton_self _)
    exact ⟨hb "output" (by simp), hb "guardrails" (by simp)⟩
  · rintro a -
    split
    · rintro n ⟨⟩
    · rename_i hne
      obtain ⟨h1, h2⟩ := h hne
      intro n hn
      rw [List.mem_singleton.mp hn]
      intro k hk
      rcases List.mem_cons.mp hk with rfl | hk
      · exact h1
      · rw [List.mem_singleton.mp hk]
        exact h2

/-- The structured fields and the messages are taken only where the class has
them. So of all that the engine takes from a result, only the output key can
be unknown. -/
theorem mappedFields_fit {nodeId : String} {node : AgentNode} {state : PyDict}
    {result : AgentResult} (hs : schema = some S) :
    (∀ k ∈ (mappedFields schema nodeId node state result).map (·.1), k ∈ S.fields) ↔
      (result.output ≠ "" → outputKeyOf nodeId node ∈ S.fields) := by
  subst hs
  unfold mappedFields
  constructor
  · intro h hne
    refine h _ ?_
    simp [hne]
  · intro h k hk
    simp only [List.map_append, List.mem_append] at hk
    rcases hk with (hk | hk) | hk
    · split at hk
      · rename_i hne
        rw [List.map_append, List.mem_append] at hk
        rcases hk with hk | hk
        · split at hk
          · rename_i hout
            simp only [List.map_cons, List.map_nil, List.mem_singleton] at hk
            rw [hk]
            exact hout
          · cases hk
        · simp only [List.map_cons, List.map_nil, List.mem_singleton] at hk
          rw [hk]
          exact h hne
      · cases hk
    · split at hk
      · split at hk
        · obtain ⟨e, he, rfl⟩ := List.mem_map.mp hk
          exact of_decide_eq_true (List.mem_filter.mp he).2
        · cases hk
      · cases hk
    · split at hk
      · cases hk
      split at hk
      · rename_i hm
        simp only [List.map_cons, List.map_nil, List.mem_singleton] at hk
        rw [hk]
        exact hm
      · cases hk

theorem fit_mapResult {nodeId : String} {node : AgentNode} {state : PyDict}
    {result : AgentResult} (hs : schema = some S) :
    AllFit S (mapResult schema nodeId node state result).log ↔ OutputFits S nodeId node result := by
  unfold mapResult OutputFits
  split
  · rename_i f hf
    refine ⟨fun _ h => ?_, fun _ => fit_outside _⟩
    rw [hf] at h
    cases h
  · rename_i hf
    rw [← mappedFields_fit hs]
    refine ⟨fun h _ => h _ (List.mem_singleton_self _), fun h n hn => ?_⟩
    rw [List.mem_singleton.mp hn]
    exact h hf

theorem fit_agentNotes (ctx : Ctx) (run : AgentRun) : AllFit S (agentNotes ctx run) := by
  intro n hn
  unfold agentNotes at hn
  split at hn
  · obtain ⟨e, -, rfl⟩ := List.mem_map.mp hn
    trivial
  · cases hn

/-- What comes after the first part `x` of a computation that wrote nothing of
its own. -/
theorem allFit_bind {α β : Type} {x : Eng α} {f : α → Eng β} (hx : AllFit S x.log) :
    AllFit S (x >>= f).log ↔ ∀ a, x.result = .ok a → AllFit S (f a).log := by
  unfold AllFit
  rw [Logged.forall_log_bind]
  exact ⟨fun h => h.2, fun h => ⟨hx, h⟩⟩

theorem allFit_bind_pure {α β : Type} {x : Eng α} {f : α → β} :
    AllFit S (x >>= fun a => pure (f a)).log ↔ AllFit S x.log := by
  unfold AllFit
  rw [Logged.forall_log_bind]
  refine ⟨fun h => h.1, fun h => ⟨h, ?_⟩⟩
  rintro a - n ⟨⟩

theorem fit_executeAgentNode {nodeId : String} {node : AgentNode} {state : PyDict} {ctx : Ctx}
    (hs : schema = some S) :
    AllFit S (executeAgentNode schema nodeId node state ctx).log ↔
      AgentFits S nodeId node state ctx := by
  unfold executeAgentNode AgentFits
  rw [allFit_bind (fit_outside _)]
  simp only [result_outside]
  refine forall₂_congr (fun input _ => ?_)
  rw [allFit_bind (fit_outside _)]
  simp only [result_outside]
  refine forall₂_congr (fun violations _ => ?_)
  by_cases hv : violations = []
  · simp only [hv, ne_eq, not_true_eq_false, if_false, false_implies, true_implies, true_and]
    rw [allFit_bind (fit_agentNotes ctx _)]
    have hunit : ∀ p : Unit → Prop, (∀ a, (Except.ok () : Except EngineError Unit) = .ok a → p a) ↔
        p () := fun p => ⟨fun h => h () rfl, fun h _ _ => h⟩
    refine (hunit _).trans ?_
    rw [allFit_bind (fit_outside _)]
    simp only [result_outside]
    refine forall₂_congr (fun result _ => ?_)
    rw [allFit_bind (fit_outside _)]
    simp only [result_outside]
    refine forall₂_congr (fun post _ => ?_)
    by_cases hp : post = []
    · simp only [hp, not_true_eq_false, if_false, false_implies, true_implies, true_and]
      rw [allFit_bind_pure, fit_mapResult hs]
    · simp only [hp, not_false_eq_true, if_true, true_implies, false_implies, and_true]
      rw [allFit_bind_pure, fit_reject]
  · simp only [hv, ne_eq, not_false_eq_true, if_true, true_implies, false_implies, and_true]
    rw [allFit_bind_pure, fit_reject]

/-! ## Any node, and a fan-out -/

def NodeFits (S : Schema) (nodeId : String) (node : GraphNode) (state : PyDict) (ctx : Ctx) :
    Prop :=
  match node with
  | .agent n => AgentFits S nodeId n state ctx
  | .function _ | .subgraph _ => True

theorem fit_executeNode {nodeId : String} {node : GraphNode} {state : PyDict} {ctx : Ctx}
    (hs : schema = some S) :
    AllFit S (executeNode schema nodeId node state ctx).log ↔
      NodeFits S nodeId node state ctx := by
  have hran : AllFit S (Logged.note (.ran nodeId) : Eng Unit).log := by
    intro n hn
    rw [List.mem_singleton.mp hn]
    trivial
  unfold executeNode NodeFits
  rw [allFit_bind hran]
  refine ⟨fun h => ?_, fun h _ _ => ?_⟩
  · cases node with
    | agent n => exact (fit_executeAgentNode hs).mp (h () rfl)
    | function n => trivial
    | subgraph n => trivial
  · cases node with
    | agent n => exact (fit_executeAgentNode hs).mpr h
    | function n => exact allFit_bind_pure.mpr (fit_outside _)
    | subgraph n => exact allFit_bind_pure.mpr (fit_outside _)

/-- Every branch of a fan-out fits in its own context. -/
def BranchesFit (S : Schema) (ctx : Ctx) (branches : List Branch) : Prop :=
  ∀ i b, branches[i]? = some b →
    NodeFits S b.nodeId b.node b.state (ctx.cloneForBranch b.nodeId i)

theorem fit_fanOut {ctx : Ctx} {f : List EngineError → EngineError} {branches : List Branch}
    {state : WorkflowState schema} (hs : schema = some S) :
    AllFit S (fanOut env ctx f branches state).log ↔ BranchesFit S ctx branches := by
  have hmem : ∀ n, n ∈ (fanOut env ctx f branches state).log ↔
      ∃ i b, branches[i]? = some b ∧ n ∈ (executeNode schema b.nodeId b.node b.state
        (ctx.cloneForBranch b.nodeId i)).log := by
    intro n
    refine (env.gather_perm _).mem_iff.trans ?_
    rw [List.mem_flatten]
    constructor
    · rintro ⟨log, hlog, hn⟩
      obtain ⟨run, hrun, rfl⟩ := List.mem_map.mp hlog
      obtain ⟨i, hi, rfl⟩ := List.mem_mapIdx.mp hrun
      exact ⟨i, branches[i], List.getElem?_eq_getElem hi, hn⟩
    · rintro ⟨i, b, hb, hn⟩
      obtain ⟨hi, rfl⟩ := List.getElem?_eq_some_iff.mp hb
      exact ⟨_, List.mem_map.mpr ⟨_, List.mem_mapIdx.mpr ⟨i, hi, rfl⟩, rfl⟩, hn⟩
  unfold BranchesFit
  constructor
  · intro h i b hb
    exact (fit_executeNode hs).mp (fun n hn => h n ((hmem n).mpr ⟨i, b, hb, hn⟩))
  · intro h n hn
    obtain ⟨i, b, hb, hin⟩ := (hmem n).mp hn
    exact (fit_executeNode hs).mpr (h i b hb) n hin

/-! ## The way out of a node -/

/-- The branches of a parallel edge. -/
def parallelBranches (targets : List (String × GraphNode)) (stateDict : PyDict) : List Branch :=
  targets.map (fun t => ⟨t.1, t.2, stateDict⟩)

/-- The branches of a list of sends. -/
def sendBranches (targets : List (String × GraphNode)) (sends : List Send) (stateDict : PyDict) :
    List Branch :=
  List.zipWith (fun t s => ⟨t.1, t.2, stateDict.update s.state⟩) targets sends

/-- The history that a handoff hands over. -/
def handoffHistory (e : HandoffEdge) (stateDict : PyDict) : Except Raised (List Value) :=
  let messages := (stateDict.get? "messages").getD (.list [])
  if e.distill then distill.distillContext messages else distill.fullPassthrough messages

/-- A handoff writes to `handoff_payload` and to `messages`, and the branches
of a fan-out are nodes like any other. -/
def ExitFits (G : CompiledGraph) (S : Schema) (ctx : Ctx) (nodeId : String) (stateDict : PyDict) :
    Prop :=
  match G.edgesFrom nodeId with
  | .plain .. :: _ => True
  | .conditional e :: _ => ∀ sends counters,
    e.resolve (stateDict.set loopCountersKey ctx.loopCounters.value) ctx.loopCounters =
      .ok (.sends sends, counters) →
    ∀ targets, lookupNodes G (sends.map (fun s => .node s.node)) = .ok targets →
      BranchesFit S ctx
        (sendBranches targets sends (stateDict.set loopCountersKey counters.value))
  | .parallel e :: _ => ∀ targets, lookupNodes G e.targets = .ok targets →
    BranchesFit S ctx (parallelBranches targets stateDict)
  | [] => ∀ e, pickHandoff nodeId stateDict G.handoffEdges = .ok (some e) →
    ∀ history, handoffHistory e stateDict = .ok history → ctx.hasBus = true →
      "handoff_payload" ∈ S.fields ∧ "messages" ∈ S.fields

theorem fit_ofExcept {α : Type} (r : Except EngineError α) :
    AllFit S (Logged.ofExcept r : Eng α).log := by
  rintro n ⟨⟩

theorem fit_handoff {ctx : Ctx} {e : HandoffEdge} {stateDict : PyDict}
    {state : WorkflowState schema} :
    AllFit S (handoff ctx e stateDict state).log ↔
      ∀ history, handoffHistory e stateDict = .ok history → ctx.hasBus = true →
        "handoff_payload" ∈ S.fields ∧ "messages" ∈ S.fields := by
  unfold handoff
  rw [allFit_bind (fit_outside _)]
  simp only [result_outside]
  refine forall₂_congr (fun history _ => ?_)
  by_cases hb : ctx.hasBus = true
  · simp only [hb, if_true, true_implies]
    constructor
    · intro h
      have hfit : Fit S (.built ["handoff_payload", "messages"]) :=
        h _ (List.mem_cons_of_mem _ (List.mem_cons_self ..))
      exact ⟨hfit _ (by simp), hfit _ (by simp)⟩
    · rintro ⟨h1, h2⟩ n hn
      rcases List.mem_cons.mp hn with rfl | hn
      · trivial
      rcases List.mem_cons.mp hn with rfl | hn
      · intro k hk
        rcases List.mem_cons.mp hk with rfl | hk
        · exact h1
        · rw [List.mem_singleton.mp hk]
          exact h2
      · cases hn
  · rw [if_neg hb]
    refine ⟨fun _ h => absurd h hb, fun _ => ?_⟩
    rintro n ⟨⟩

theorem fit_executeParallel {ctx : Ctx} {edge : ParallelEdge} {stateDict : PyDict}
    {state : WorkflowState G.schema} (hs : G.schema = some S) :
    AllFit S (executeParallel G env ctx edge stateDict state).log ↔
      ∀ targets, lookupNodes G edge.targets = .ok targets →
        BranchesFit S ctx (parallelBranches targets stateDict) := by
  unfold executeParallel
  rw [allFit_bind (fit_ofExcept _)]
  exact forall₂_congr (fun targets _ => fit_fanOut hs)

theorem fit_executeSends {ctx : Ctx} {sends : List Send} {stateDict : PyDict}
    {state : WorkflowState G.schema} (hs : G.schema = some S) :
    AllFit S (executeSends G env ctx sends stateDict state).log ↔
      ∀ targets, lookupNodes G (sends.map (fun s => .node s.node)) = .ok targets →
        BranchesFit S ctx (sendBranches targets sends stateDict) := by
  unfold executeSends
  rw [allFit_bind (fit_ofExcept _)]
  exact forall₂_congr (fun targets _ => fit_fanOut hs)

theorem fit_resolveNext {ctx : Ctx} {nodeId : String} {stateDict : PyDict}
    {state : WorkflowState G.schema} (hs : G.schema = some S) :
    AllFit S (resolveNext G env ctx nodeId stateDict state).log ↔
      ExitFits G S ctx nodeId stateDict := by
  unfold resolveNext ExitFits
  rcases hedges : G.edgesFrom nodeId with _ | ⟨⟨source, target⟩ | e | e, rest⟩
  · rw [allFit_bind (fit_outside _)]
    simp only [result_outside]
    constructor
    · intro h e he
      exact fit_handoff.mp (allFit_bind_pure.mp (h (some e) he))
    · rintro h (_ | e) he
      · rintro n ⟨⟩
      · exact allFit_bind_pure.mpr (fit_handoff.mpr (h e he))
  · simp [AllFit]
  · rw [allFit_bind (fit_ofExcept _)]
    constructor
    · intro h sends counters hr
      exact (fit_executeSends hs).mp (allFit_bind_pure.mp (h (.sends sends, counters) hr))
    · rintro h ⟨target | sends, counters⟩ hr
      · rintro n ⟨⟩
      · exact allFit_bind_pure.mpr ((fit_executeSends hs).mpr (h sends counters hr))
  · exact allFit_bind_pure.trans (fit_executeParallel hs)

/-! ## A turn, and a run -/

/-- The class has the fields for all that the engine does in the turn at `L`. -/
def TurnFits (G : CompiledGraph) (S : Schema) (L : Loop G.schema) : Prop :=
  ∀ node, G.nodes.get? L.current.text = some node →
    (node.interruptBefore && !L.bypass) = false →
    NodeFits S L.current.text node L.state.data L.enter ∧
      ∀ log state ctx,
        completeNode L.current.text node L.state L.enter = ⟨log, .ok (state, ctx)⟩ →
          ExitFits G S ctx L.current.text state.data

theorem fit_completeNode {nodeId : String} {node : GraphNode} {state : WorkflowState schema}
    {ctx : Ctx} (hs : schema = some S) :
    AllFit S (completeNode nodeId node state ctx).log ↔ NodeFits S nodeId node state.data ctx := by
  rw [← fit_executeNode hs]
  unfold completeNode AllFit emit
  simp only [Logged.forall_log_bind]
  constructor
  · intro h
    exact (h.2 () rfl).1
  · intro h
    refine ⟨?_, fun _ _ => ⟨h, fun _ _ => ⟨fit_ofExcept _, fun _ _ => ⟨?_, fun _ _ => ⟨?_, ?_⟩⟩⟩⟩⟩
    · intro n hn
      rw [List.mem_singleton.mp hn]
      trivial
    · intro n hn
      rw [List.mem_singleton.mp hn]
      trivial
    · intro n hn
      rw [List.mem_singleton.mp hn]
      trivial
    · rintro _ - n ⟨⟩

theorem fit_walk {L : Loop G.schema} {node : GraphNode} (hs : G.schema = some S) :
    AllFit S (walk G env L node).log ↔
      NodeFits S L.current.text node L.state.data L.enter ∧
        ∀ log state ctx,
          completeNode L.current.text node L.state L.enter = ⟨log, .ok (state, ctx)⟩ →
            ExitFits G S ctx L.current.text state.data := by
  rw [← fit_completeNode hs]
  unfold walk AllFit
  rw [Logged.forall_log_bind]
  refine and_congr_right (fun _ => ⟨fun h log state ctx hc => ?_, fun h => ?_⟩)
  · have hr := h (state, ctx) (by rw [hc])
    exact (fit_resolveNext hs).mp (allFit_bind_pure.mp hr)
  · rintro ⟨state, ctx⟩ hc
    refine allFit_bind_pure.mpr ((fit_resolveNext hs).mpr ?_)
    exact h (completeNode L.current.text node L.state L.enter).log state ctx (Logged.ext rfl hc)

theorem fit_turn (env : Env) {L : Loop G.schema} (hs : G.schema = some S) :
    AllFit S (turn G env L).log ↔ TurnFits G S L := by
  unfold TurnFits
  rcases hn : G.nodes.get? L.current.text with _ | node
  · rw [turn_unknown hn]
    simp [AllFit, Logged.fail]
  rcases hb : (node.interruptBefore && !L.bypass) with _ | _
  · rw [turn_walking hn hb]
    simp only [Option.some.injEq, forall_eq', hb, true_implies]
    rw [← fit_walk hs]
    unfold AllFit
    rw [Logged.forall_log_bind]
    refine ⟨fun h => h.1, fun h => ⟨h, ?_⟩⟩
    rintro ⟨ctx, r⟩ - n hn
    simp only at hn
    split at hn
    · rw [List.mem_singleton.mp hn]
      trivial
    · cases hn
  · rw [turn_pausing hn hb]
    simp only [Option.some.injEq, forall_eq', hb]
    simp [AllFit, Fit]

/-- The class has the fields for all that the engine does in a run of the loop. -/
def LoopFits (G : CompiledGraph) (env : Env) (S : Schema) (L₀ : Loop G.schema) : Prop :=
  ∀ logs L, Run (loopMachine G env L₀) L₀ logs L → L.current ≠ .END →
    L.ctx.turnNumber < G.maxTurns → TurnFits G S L

theorem fit_last {L : Loop G.schema} {log : List Note} {ending : Ending} (hs : G.schema = some S)
    (h : Last G env L log ending) :
    AllFit S log ↔ (L.current ≠ .END → L.ctx.turnNumber < G.maxTurns → TurnFits G S L) := by
  cases h with
  | done hend => simp [AllFit, hend]
  | outOfTurns hend ht =>
    have : ¬ L.ctx.turnNumber < G.maxTurns := by omega
    simp [AllFit, this]
  | failed hend ht hturn =>
    rw [← fit_turn env hs, hturn]
    simp [hend, ht]
  | paused hend ht hturn =>
    rw [← fit_turn env hs, hturn]
    simp [hend, ht]

/-- The log of a run of the loop starts with the log of its first turn. -/
theorem fit_first {L : Loop G.schema} (hs : G.schema = some S)
    (h : AllFit S (runLoop G env L).log) (hend : L.current ≠ .END)
    (ht : L.ctx.turnNumber < G.maxTurns) : TurnFits G S L := by
  rw [← fit_turn env hs]
  rcases hturn : turn G env L with ⟨log, e | L' | p⟩
  · rw [runLoop_last (.failed hend ht hturn)] at h
    exact h
  · have hstep : (loopMachine G env L).step L log L' := ⟨hend, ht, hturn⟩
    rw [runLoop_next hstep] at h
    exact fun n hn => h n (List.mem_append_left _ hn)
  · rw [runLoop_last (.paused hend ht hturn)] at h
    exact h

theorem fit_runLoop (L₀ : Loop G.schema) (hs : G.schema = some S) :
    AllFit S (runLoop G env L₀).log ↔ LoopFits G env S L₀ := by
  constructor
  · intro h logs L hrun hend ht
    rw [runLoop_run hrun] at h
    exact fit_first hs (fun n hn => h n (List.mem_append_right _ hn)) hend ht
  · intro h
    obtain ⟨logs, L, log, ending, hrun, hlast⟩ := exists_path env L₀ L₀
    rw [runLoop_path hrun hlast]
    intro n hn
    rcases List.mem_append.mp hn with hn | hn
    · obtain ⟨l, hl, hin⟩ := List.mem_flatten.mp hn
      obtain ⟨bs, u, v, hbs, hstep⟩ := hrun.exists_step hl
      have hfit := (fit_turn env hs).mpr (h bs u hbs hstep.1 hstep.2.1)
      rw [hstep.2.2] at hfit
      exact hfit n hin
    · exact (fit_last hs hlast).mpr (h logs L hrun) n hn

/-! ## The calls -/

/-- The class has the fields for all that the engine does in a call. -/
def CallFits (G : CompiledGraph) (S : Schema) (runId : String) (r : RunRecord) : Call → Prop
  | .run env input => ∀ state, WorkflowState.ofDict G.schema input.initialState = .ok state →
    LoopFits G env S (runStart G { input with context := { input.context with runId } } state)
  | .resume env stateUpdates => ∀ cp, r.latestCheckpoint = some cp → ∀ state,
    WorkflowState.ofDict G.schema (cp.state.update stateUpdates) = .ok state →
      LoopFits G env S (resumeStart G cp state)
  | .fork _ sequenceNumber stateOverrides newRunId => ∀ history,
    getStateAt r runId sequenceNumber = .ok history →
      ∀ state, WorkflowState.ofDict G.schema (history.state.update stateOverrides) = .ok state →
        ExitFits G S (freshCtx newRunId) history.nodeId (history.state.update stateOverrides)

theorem fit_finish {metered : Bool} {before : List Note} {r : LoopRun} (hb : AllFit S before) :
    AllFit S (finish env metered before r).log ↔ AllFit S r.log := by
  have hlog : ∀ last : List Note, (∀ n ∈ last, ∃ e, n = .emit e) →
      (AllFit S (before ++ r.log ++ last) ↔ AllFit S r.log) := by
    intro last hlast
    constructor
    · intro h n hn
      exact h n (List.mem_append_left _ (List.mem_append_right _ hn))
    · intro h n hn
      rcases List.mem_append.mp hn with hn | hn
      · rcases List.mem_append.mp hn with hn | hn
        · exact hb n hn
        · exact h n hn
      · obtain ⟨e, rfl⟩ := hlast n hn
        trivial
  rcases he : r.ending with state | p | ⟨nodeId, e⟩
  · simp only [finish, he]
    exact hlog _ (by simp)
  · simp only [finish, he]
    have := hlog [] (by simp)
    rwa [List.append_nil] at this
  · simp only [finish, he]
    exact hlog _ (by simp)

theorem fit_emit (e : Emission) : AllFit S [.emit e] := by
  intro n hn
  rw [List.mem_singleton.mp hn]
  trivial

theorem fit_runFrom {metered : Bool} {before : List Note} {d : PyDict}
    {start : WorkflowState G.schema → Loop G.schema} (hs : G.schema = some S)
    (hb : AllFit S before) :
    AllFit S (runFrom G env metered before d start).log ↔
      ∀ state, WorkflowState.ofDict G.schema d = .ok state → LoopFits G env S (start state) := by
  unfold runFrom
  rcases hd : WorkflowState.ofDict G.schema d with e | state
  · refine ⟨fun _ state h => ?_, fun _ => hb⟩
    cases h
  · simp only [Except.ok.injEq, forall_eq']
    rw [fit_finish hb, fit_runLoop _ hs]

/-- Every update that the engine builds on its own in a call names only fields
of the class if and only if the class has `output` and `guardrails` when a
guardrail refuses, the output key of each agent that has an output and no
mapper for it, and `handoff_payload` and `messages` when a handoff fires. -/
theorem engine_updates_fit_iff (G : CompiledGraph) (S : Schema) (hs : G.schema = some S)
    (runId : String) (r : RunRecord) (call : Call) :
    AllFit S (call.exec G runId r).2.1 ↔ CallFits G S runId r call := by
  cases call with
  | run env input => exact fit_runFrom hs (fit_emit _)
  | resume env stateUpdates =>
    simp only [Call.exec, CallFits]
    rcases hcp : r.latestCheckpoint with _ | cp
    · refine ⟨fun _ cp h => ?_, fun _ => ?_⟩
      · cases h
      · rintro n ⟨⟩
    · simp only [Option.some.injEq, forall_eq']
      exact fit_runFrom hs (fit_emit _)
  | fork env sequenceNumber stateOverrides newRunId =>
    have hlog : (Call.exec G runId r (.fork env sequenceNumber stateOverrides newRunId)).2.1 =
        (fork G env r runId sequenceNumber stateOverrides newRunId).log := by
      simp only [Call.exec]
      split <;> rfl
    rw [hlog]
    unfold fork CallFits
    rw [allFit_bind (fit_ofExcept _)]
    refine forall₂_congr (fun history _ => ?_)
    rw [allFit_bind (fit_ofExcept _)]
    refine forall₂_congr (fun state _ => ?_)
    exact allFit_bind_pure.trans (fit_resolveNext hs)

/-! ## A writer whose output has no field -/

/-- A builder with one agent. -/
def writerFlow (S : Schema) : WorkflowGraph where
  schema := some S
  name := ""
  nodes := Dict.ofList [("writer", .agent (answering "writer" "a poem"))]
  edges := []
  handoffEdges := []
  entryPoint := some "writer"
  lastNode := some "writer"
  parallelNodes := none

/-- The graph that it compiles to. -/
def writerGraph (S : Schema) : CompiledGraph where
  nodes := Dict.ofList [("writer", .agent (answering "writer" "a poem"))]
  edges := [.plain "writer" .END]
  entryPoint := "writer"
  schema := some S
  maxTurns := 50
  name := ""
  handoffEdges := []

def plainClass : Schema :=
  Schema.ofDefaults "State" (Dict.ofList [("input", .str ""), ("output", .str "")]) .empty
    (by decide)

def roomyClass : Schema :=
  Schema.ofDefaults "State" (Dict.ofList [("input", .str ""), ("writer_output", .str "")]) .empty
    (by decide)

theorem the_writer_fits_its_class : CallFits (writerGraph roomyClass) roomyClass "run" .empty
    (.run inOrder (plainInput .empty)) :=
  (engine_updates_fit_iff (writerGraph roomyClass) roomyClass rfl _ _ _).mp (by decide)

/-- The output of the writer goes to `writer_output`, which is no field, and
the run fails for it. -/
theorem the_output_key_is_no_field :
    (writerFlow plainClass).compile 50 = .ok (writerGraph plainClass) ∧
    ¬ AllFit plainClass (Call.exec (writerGraph plainClass) "run" .empty
      (.run inOrder (plainInput .empty))).2.1 ∧
    (run (writerGraph plainClass) inOrder (plainInput .empty)).outcome =
      .raised (.unknownField "writer_output" "State" ["input", "output"]) :=
  ⟨rfl, by decide, rfl⟩

end orchestra.schema_fit
