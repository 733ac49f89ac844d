-- Restricted mode over a whole run: a context that an injection has put in that mode,
-- and the contexts of the nodes that the run starts after it. The flag goes down into
-- the branches of a fan-out, and neither out of them nor through a checkpoint.
import Orchestra.Guard
import Orchestra.Runs
import Orchestra.Turns

open dicts logged machine orchestra.state orchestra.edges orchestra.events orchestra.nodes
open orchestra.compiled orchestra.turns orchestra.runs orchestra.ucan orchestra.guard

namespace orchestra.lockdown

variable {G : CompiledGraph} {env : Env} {schema : Option Schema}

/-! ## The nodes that a run starts -/

/-- A node that was started: whether its context was in restricted mode then, and
whether the node left it so. -/
structure Visit where
  nodeId : String
  before : Bool
  after : Bool
deriving DecidableEq, Repr

/-- The mode in which a node leaves its context. Only an agent gets to see the context,
and no agent is called on an input that the guardrails reject. -/
def modeAfter (node : GraphNode) (state : PyDict) (ctx : Ctx) : Bool :=
  match node with
  | .agent n =>
    match agentInput n state with
    | .error _ => ctx.restrictedMode
    | .ok input =>
      match inputViolations ctx.config.guardrails (guardMessages input) with
      | .ok [] => (n.run input ctx).restrictedMode
      | _ => ctx.restrictedMode
  | _ => ctx.restrictedMode

def visit (nodeId : String) (node : GraphNode) (state : PyDict) (ctx : Ctx) : Visit :=
  ⟨nodeId, ctx.restrictedMode, modeAfter node state ctx⟩

/-- The targets of a fan-out that starts. Where one of them is missing it does not. -/
def targetsOf (G : CompiledGraph) (targets : List Target) : List (String × GraphNode) :=
  match lookupNodes G targets with
  | .ok found => found
  | .error _ => []

/-- The branches that the way out of a node starts. -/
def branchesFrom (G : CompiledGraph) (ctx : Ctx) (nodeId : String) (stateDict : PyDict) :
    List Branch :=
  match G.edgesFrom nodeId with
  | .conditional e :: _ =>
    match e.resolve (stateDict.set loopCountersKey ctx.loopCounters.value) ctx.loopCounters with
    | .ok (.sends sends, counters) =>
      let stateDict := stateDict.set loopCountersKey counters.value
      List.zipWith (fun t s => ⟨t.1, t.2, stateDict.update s.state⟩)
        (targetsOf G (sends.map (fun s => .node s.node))) sends
    | _ => []
  | .parallel e :: _ => (targetsOf G e.targets).map (fun t => ⟨t.1, t.2, stateDict⟩)
  | _ => []

def branchVisits (ctx : Ctx) (branches : List Branch) : List Visit :=
  branches.mapIdx (fun i b => visit b.nodeId b.node b.state (ctx.cloneForBranch b.nodeId i))

/-- What one turn of the loop starts: its node, and then the branches out of it. -/
structure Started where
  node : Visit
  branches : List Visit
deriving DecidableEq, Repr

def Started.visits (t : Started) : List Visit := t.node :: t.branches

/-- A node that fails is the last one of its turn. -/
def startedAt (G : CompiledGraph) (L : Loop G.schema) (node : GraphNode) : Started where
  node := visit L.current.text node L.state.data L.enter
  branches :=
    match (completeNode L.current.text node L.state L.enter).result with
    | .error _ => []
    | .ok (state, ctx) => branchVisits ctx (branchesFrom G ctx L.current.text state.data)

/-- A turn that looks for a missing node or pauses before its node starts nothing. -/
def startedBy (G : CompiledGraph) (L : Loop G.schema) : Option Started :=
  match G.nodes.get? L.current.text with
  | none => none
  | some node => if node.interruptBefore && !L.bypass then none else some (startedAt G L node)

/-- What the loop starts, turn after turn, with `left` turns left. -/
def startedFrom (G : CompiledGraph) (env : Env) : Nat → Loop G.schema → List Started
  | 0, _ => []
  | left + 1, L =>
    if L.current = .END then []
    else
      (startedBy G L).toList ++
        match (turn G env L).result with
        | .ok (.next L') => startedFrom G env left L'
        | _ => []

def startedIn (G : CompiledGraph) (env : Env) (L : Loop G.schema) : List Started :=
  startedFrom G env (G.maxTurns - L.ctx.turnNumber) L

/-! ## They are the nodes that the engine calls -/

theorem ranNodes_runBranches (schema : Option Schema) (ctx : Ctx) (branches : List Branch) :
    ranNodes ((runBranches schema ctx branches).map (·.log)).flatten =
      (branchVisits ctx branches).map (·.nodeId) := by
  unfold runBranches branchVisits
  rw [List.mapIdx_eq_zipIdx_map, List.mapIdx_eq_zipIdx_map]
  induction branches.zipIdx with
  | nil => rfl
  | cons b rest ih =>
    simp only [List.map_cons, List.flatten_cons, ranNodes_append, ranNodes_executeNode, ih]
    rfl

theorem ranNodes_fanOut (ctx : Ctx) (f : List EngineError → EngineError) (branches : List Branch)
    (state : WorkflowState schema) :
    (ranNodes (fanOut env ctx f branches state).log).Perm
      ((branchVisits ctx branches).map (·.nodeId)) := by
  rw [← ranNodes_runBranches schema]
  exact (env.gather_perm _).filterMap _

theorem ranNodes_bind {α β : Type} {x : Eng α} {f : α → Eng β}
    (h : ∀ a, ranNodes (f a).log = []) : ranNodes (x >>= f).log = ranNodes x.log := by
  rcases hx : x.result with e | a
  · rw [Logged.bind_error f hx]
  · rw [Logged.bind_ok f hx]
    simp only [ranNodes_append, h, List.append_nil]

theorem ranNodes_handoff (ctx : Ctx) (e : HandoffEdge) (stateDict : PyDict)
    (state : WorkflowState schema) : ranNodes (handoff ctx e stateDict state).log = [] := by
  have hmeets : Logged.Meets (fun n => Note.ran? n = none) (fun _ => True) InGraph
      (handoff ctx e stateDict state) := by
    unfold handoff
    refine Logged.meets_bind (quiet_outside (P := fun _ => True) (fun _ _ => trivial))
      (fun history _ _ => ?_)
    split
    · refine Logged.meets_bind (Logged.meets_note rfl) (fun _ _ _ => ?_)
      refine Logged.meets_bind (Logged.meets_note rfl) (fun _ _ _ => ?_)
      exact Logged.meets_ofExcept (fun _ _ => trivial) (fun _ h => inGraph_apply h)
    · exact Logged.meets_fail rfl
  exact List.filterMap_eq_nil_iff.mpr hmeets.notes

theorem ranNodes_executeParallel (env : Env) (ctx : Ctx) (e : ParallelEdge) (stateDict : PyDict)
    (state : WorkflowState G.schema) :
    (ranNodes (executeParallel G env ctx e stateDict state).log).Perm
      ((branchVisits ctx ((targetsOf G e.targets).map (fun t => ⟨t.1, t.2, stateDict⟩))).map
        (·.nodeId)) := by
  unfold executeParallel targetsOf
  rcases lookupNodes G e.targets with error | targets
  · exact .refl _
  · exact ranNodes_fanOut ctx parallelFailure _ state

theorem ranNodes_executeSends (env : Env) (ctx : Ctx) (sends : List Send) (stateDict : PyDict)
    (state : WorkflowState G.schema) :
    (ranNodes (executeSends G env ctx sends stateDict state).log).Perm
      ((branchVisits ctx (List.zipWith (fun t s => ⟨t.1, t.2, stateDict.update s.state⟩)
        (targetsOf G (sends.map (fun s => .node s.node))) sends)).map (·.nodeId)) := by
  unfold executeSends targetsOf
  rcases lookupNodes G (sends.map (fun s : Send => Target.node s.node)) with error | targets
  · exact .refl _
  · exact ranNodes_fanOut ctx sendFailure _ state

/-- The way out of a node calls the branches that it starts. -/
theorem ranNodes_resolveNext (ctx : Ctx) (nodeId : String) (stateDict : PyDict)
    (state : WorkflowState G.schema) :
    (ranNodes (resolveNext G env ctx nodeId stateDict state).log).Perm
      ((branchVisits ctx (branchesFrom G ctx nodeId stateDict)).map (·.nodeId)) := by
  unfold resolveNext branchesFrom
  rcases G.edgesFrom nodeId with _ | ⟨⟨source, target⟩ | e | e, rest⟩
  · rcases pickHandoff nodeId stateDict G.handoffEdges with error | _ | e
    · exact .refl _
    · exact .refl _
    · have hbind := ranNodes_bind (x := handoff ctx e stateDict state)
        (f := fun s => pure (Resolution.mk (.node e.target) s stateDict ctx.loopCounters))
        (fun _ => rfl)
      exact .of_eq (hbind.trans (ranNodes_handoff ctx e stateDict state))
  · exact .refl _
  · simp only
    rcases e.resolve (stateDict.set loopCountersKey ctx.loopCounters.value)
      ctx.loopCounters with error | ⟨target | sends, counters⟩
    · exact .refl _
    · exact .refl _
    · have hsends := ranNodes_executeSends env ctx sends
        (stateDict.set loopCountersKey counters.value) state
      rw [← ranNodes_bind (f := fun s => pure (Resolution.mk .END s
        (stateDict.set loopCountersKey counters.value) counters)) (fun _ => rfl)] at hsends
      exact hsends
  · have hparallel := ranNodes_executeParallel env ctx e stateDict state
    rw [← ranNodes_bind (f := fun s => pure (Resolution.mk (e.joinNode.getD .END) s stateDict
      ctx.loopCounters)) (fun _ => rfl)] at hparallel
    exact hparallel

theorem ranNodes_completeNode (nodeId : String) (node : GraphNode) (state : WorkflowState schema)
    (ctx : Ctx) : ranNodes (completeNode nodeId node state ctx).log = [nodeId] := by
  have hnode := ranNodes_executeNode schema nodeId node state.data ctx
  unfold completeNode emit
  rw [Logged.note_bind]
  refine Eq.trans (ranNodes_bind (fun done => ?_)) hnode
  simp only
  rcases state.applyAny done.1 with e | s
  · rfl
  · rfl

theorem startedBy_unknown {L : Loop G.schema} (h : G.nodes.get? L.current.text = none) :
    startedBy G L = none := by
  simp only [startedBy, h]

theorem startedBy_pausing {L : Loop G.schema} {node : GraphNode}
    (hn : G.nodes.get? L.current.text = some node)
    (hb : (node.interruptBefore && !L.bypass) = true) : startedBy G L = none := by
  simp only [startedBy, hn, hb, if_true]

theorem startedBy_walking {L : Loop G.schema} {node : GraphNode}
    (hn : G.nodes.get? L.current.text = some node)
    (hb : (node.interruptBefore && !L.bypass) = false) :
    startedBy G L = some (startedAt G L node) := by
  simp only [startedBy, hn, hb, Bool.false_eq_true, if_false]

theorem ranNodes_walk (env : Env) (L : Loop G.schema) (node : GraphNode) :
    (ranNodes (walk G env L node).log).Perm ((startedAt G L node).visits.map (·.nodeId)) := by
  have hcalled := ranNodes_completeNode L.current.text node L.state L.enter
  unfold walk startedAt Started.visits
  rcases hc : (completeNode L.current.text node L.state L.enter).result with e | ⟨state, ctx⟩
  · rw [Logged.bind_error _ hc, hcalled]
    exact .refl _
  · rw [Logged.bind_ok _ hc, ranNodes_append, hcalled]
    refine List.Perm.cons _ (List.Perm.trans (.of_eq (ranNodes_bind (fun _ => rfl))) ?_)
    exact ranNodes_resolveNext ctx L.current.text state.data state

/-- A turn calls the nodes that it starts. -/
theorem ranNodes_turn (env : Env) (L : Loop G.schema) :
    (ranNodes (turn G env L).log).Perm
      (((startedBy G L).toList.flatMap (·.visits)).map (·.nodeId)) := by
  rcases hn : G.nodes.get? L.current.text with _ | node
  · rw [turn_unknown hn, startedBy_unknown hn]
    exact .refl _
  rcases hb : (node.interruptBefore && !L.bypass) with _ | _
  · rw [turn_walking hn hb, startedBy_walking hn hb, Option.toList_some, List.flatMap_singleton]
    refine List.Perm.trans (.of_eq (ranNodes_bind (fun done => ?_))) (ranNodes_walk env L node)
    rcases ha : node.interruptAfter with _ | _
    · rfl
    · rfl
  · rw [turn_pausing hn hb, startedBy_pausing hn hb]
    exact .refl _

theorem ids_branchVisits (ctx : Ctx) (branches : List Branch) :
    (branchVisits ctx branches).map (·.nodeId) = branches.map (·.nodeId) := by
  unfold branchVisits
  apply List.ext_getElem?
  intro i
  rcases h : branches[i]? with _ | b
  · simp [h]
  · simp [h, visit]

/-- A turn calls its node, and when that completes the branches out of it. -/
theorem calls_iff {L : Loop G.schema} {id : String} :
    id ∈ ranNodes (turn G env L).log ↔
      ∃ node, G.nodes.get? L.current.text = some node ∧
        (node.interruptBefore && !L.bypass) = false ∧
        (id = L.current.text ∨ ∃ state ctx, Completes L node state ctx ∧
          ∃ b ∈ branchesFrom G ctx L.current.text state.data, b.nodeId = id) := by
  rw [(ranNodes_turn env L).mem_iff]
  rcases hn : G.nodes.get? L.current.text with _ | node
  · simp [startedBy_unknown hn]
  rcases hb : (node.interruptBefore && !L.bypass) with _ | _
  · rw [startedBy_walking hn hb, Option.toList_some, List.flatMap_singleton]
    simp only [Started.visits, startedAt, List.map_cons, List.mem_cons, visit]
    rcases hc : (completeNode L.current.text node L.state L.enter).result with error | ⟨state, ctx⟩
    · constructor
      · intro h
        refine ⟨node, rfl, hb, Or.inl ?_⟩
        simpa using h
      · rintro ⟨other, hother, -, h⟩
        cases hother
        rcases h with h | ⟨state, ctx, hcompletes, -⟩
        · exact Or.inl h
        · cases hc.symm.trans hcompletes.completed
    · simp only [ids_branchVisits, List.mem_map]
      constructor
      · rintro (h | h)
        · exact ⟨node, rfl, hb, Or.inl h⟩
        · exact ⟨node, rfl, hb, Or.inr ⟨state, ctx, ⟨hn, hb, hc⟩, h⟩⟩
      · rintro ⟨other, hother, -, h⟩
        cases hother
        rcases h with h | ⟨state', ctx', hcompletes, h⟩
        · exact Or.inl h
        · cases hc.symm.trans hcompletes.completed
          exact Or.inr h
  · rw [startedBy_pausing hn hb]
    constructor
    · intro h
      simp at h
    · rintro ⟨other, hother, hstarts, -⟩
      cases hother
      cases hb.symm.trans hstarts

/-! ## The mode of the next node -/

theorem outside_ok {α : Type} {r : Except Raised α} {log : List Note} {a : α}
    (h : (outside r : Eng α) = ⟨log, .ok a⟩) : r = .ok a := by
  rcases r with e | b
  · cases h
  · cases h
    rfl

theorem mode_executeAgentNode {nodeId : String} {node : AgentNode} {state : PyDict} {ctx : Ctx}
    {log : List Note} {update : PyDict} {mode : Bool}
    (h : executeAgentNode schema nodeId node state ctx = ⟨log, .ok (update, mode)⟩) :
    mode = modeAfter (.agent node) state ctx := by
  unfold executeAgentNode at h
  obtain ⟨_, input, _, hinput, h, -⟩ := Logged.of_bind_ok h
  obtain ⟨_, violations, _, hviolations, h, -⟩ := Logged.of_bind_ok h
  unfold modeAfter
  simp only [outside_ok hinput, outside_ok hviolations]
  split at h
  · rename_i hsome
    obtain ⟨_, refused, _, -, hdone, -⟩ := Logged.of_bind_ok h
    cases hdone
    split
    · exact absurd (Except.ok.inj (by assumption)) hsome
    · rfl
  · rename_i hnone
    obtain rfl : violations = [] := not_not.mp hnone
    obtain ⟨_, _, _, -, h, -⟩ := Logged.of_bind_ok h
    obtain ⟨_, result, _, -, h, -⟩ := Logged.of_bind_ok h
    obtain ⟨_, post, _, -, h, -⟩ := Logged.of_bind_ok h
    split at h
    · obtain ⟨_, _, _, -, hdone, -⟩ := Logged.of_bind_ok h
      cases hdone
      rfl
    · obtain ⟨_, _, _, -, hdone, -⟩ := Logged.of_bind_ok h
      cases hdone
      rfl

/-- A node that completes has left its context in the mode after it. -/
theorem mode_executeNode {nodeId : String} {node : GraphNode} {state : PyDict} {ctx : Ctx}
    {log : List Note} {update : PyDict} {mode : Bool}
    (h : executeNode schema nodeId node state ctx = ⟨log, .ok (update, mode)⟩) :
    mode = modeAfter node state ctx := by
  unfold executeNode at h
  obtain ⟨_, _, m, -, h, -⟩ := Logged.of_bind_ok h
  cases node with
  | agent n =>
    rcases hx : executeAgentNode schema nodeId n state ctx with ⟨l, e | done⟩
    · simp only [hx, Logged.mapError] at h
      cases h
    · simp only [hx, Logged.mapError] at h
      cases h
      exact mode_executeAgentNode hx
  | function n =>
    rcases hx : n.func state ctx.moment with e | u
    · simp only [hx] at h
      cases h
    · simp only [hx] at h
      cases h
      rfl
  | subgraph n =>
    rcases hx : n.call state ctx.moment with e | u
    · simp only [hx] at h
      cases h
    · simp only [hx] at h
      cases h
      rfl

/-- The loop goes on in the mode in which its node was left. -/
theorem mode_turn {L L' : Loop G.schema} {log : List Note}
    (h : turn G env L = ⟨log, .ok (.next L')⟩) :
    ∃ t, startedBy G L = some t ∧ L'.ctx.restrictedMode = t.node.after := by
  obtain ⟨node, ctx, r, hn, hb, -, hwalk, rfl⟩ := turn_next h
  obtain ⟨state, l, m, hcomplete, -, -⟩ := walk_ok hwalk
  obtain ⟨update, mode, nodeLog, hdone⟩ := completeNode_ok hcomplete
  refine ⟨startedAt G L node, startedBy_walking hn hb, ?_⟩
  show ctx.restrictedMode = _
  rw [hdone.left]
  exact mode_executeNode hdone.ran

/-- The node of a turn is started in the mode of the loop, and its branches in the mode
in which the node was left. -/
theorem mode_started {L : Loop G.schema} {t : Started} (h : startedBy G L = some t) :
    t.node.before = L.ctx.restrictedMode ∧ ∀ v ∈ t.branches, v.before = t.node.after := by
  rcases hn : G.nodes.get? L.current.text with _ | node
  · rw [startedBy_unknown hn] at h
    cases h
  rcases hb : (node.interruptBefore && !L.bypass) with _ | _
  · rw [startedBy_walking hn hb] at h
    cases h
    refine ⟨rfl, fun v hv => ?_⟩
    unfold startedAt at hv
    rcases hc : completeNode L.current.text node L.state L.enter with ⟨l, e | ⟨state, ctx⟩⟩
    · simp only [hc] at hv
      cases hv
    · simp only [hc] at hv
      obtain ⟨update, mode, nodeLog, hdone⟩ := completeNode_ok hc
      obtain ⟨i, hi, rfl⟩ := List.mem_mapIdx.mp hv
      show ctx.restrictedMode = _
      rw [hdone.left]
      exact mode_executeNode hdone.ran
  · rw [startedBy_pausing hn hb] at h
    cases h

/-! ## What a loop keeps -/

/-- No agent of the graph takes a context out of restricted mode. -/
def KeepsMode (G : CompiledGraph) : Prop :=
  ∀ nodeId n, G.nodes.get? nodeId = some (.agent n) → ∀ input ctx, ctx.restrictedMode = true →
    (n.run input ctx).restrictedMode = true

/-- Where one node left its context in restricted mode, the next one starts in it. -/
def Sticks (v w : Visit) : Prop := v.after = true → w.before = true

instance : DecidableRel Sticks := fun _ _ => inferInstanceAs (Decidable (_ → _))

/-- Every node that is started after a detection is started in restricted mode. -/
def Sticky (visits : List Visit) : Prop := visits.Pairwise Sticks

instance (visits : List Visit) : Decidable (Sticky visits) :=
  inferInstanceAs (Decidable (visits.Pairwise Sticks))

/-- No branch of the turn has entered restricted mode on its own. -/
def Contained (t : Started) : Prop := ∀ v ∈ t.branches, v.after = true → v.before = true

instance (t : Started) : Decidable (Contained t) :=
  inferInstanceAs (Decidable (∀ v ∈ t.branches, v.after = true → v.before = true))

/-- The middleware of the guard around each agent is enough for that. -/
theorem keepsMode_of_middleware
    (h : ∀ nodeId n, G.nodes.get? nodeId = some (.agent n) → ∃ guard capabilities runFunc,
      n.run = securityMiddleware guard capabilities runFunc ∧
        ∀ allowed input ctx, (runFunc allowed input ctx).restrictedMode = ctx.restrictedMode) :
    KeepsMode G := by
  intro nodeId n hn input ctx hmode
  obtain ⟨guard, capabilities, runFunc, hrun, hleaves⟩ := h nodeId n hn
  rw [hrun]
  apply securityMiddleware_keeps
  · intro allowed input ctx hctx
    exact (hleaves allowed input ctx).trans hctx
  · exact hmode

theorem modeAfter_keeps (hG : KeepsMode G) {nodeId : String} {node : GraphNode}
    (hn : G.nodes.get? nodeId = some node) (state : PyDict) {ctx : Ctx}
    (hmode : ctx.restrictedMode = true) : modeAfter node state ctx = true := by
  unfold modeAfter
  split
  · split
    · exact hmode
    · split
      · exact hG nodeId _ hn _ _ hmode
      · exact hmode
  · exact hmode

/-- A turn in restricted mode starts all of its nodes in it, and ends in it. -/
theorem restricted_turn (hG : KeepsMode G) {L : Loop G.schema} {t : Started}
    (h : startedBy G L = some t) (hmode : L.ctx.restrictedMode = true) :
    t.node.after = true ∧ ∀ v ∈ t.visits, v.before = true := by
  obtain ⟨hnode, hbranches⟩ := mode_started h
  have hafter : t.node.after = true := by
    rcases hn : G.nodes.get? L.current.text with _ | node
    · rw [startedBy_unknown hn] at h
      cases h
    rcases hb : (node.interruptBefore && !L.bypass) with _ | _
    · rw [startedBy_walking hn hb] at h
      cases h
      apply modeAfter_keeps hG hn
      exact hmode
    · rw [startedBy_pausing hn hb] at h
      cases h
  refine ⟨hafter, fun v hv => ?_⟩
  rcases List.mem_cons.mp hv with rfl | hv
  · exact hnode.trans hmode
  · exact (hbranches v hv).trans hafter

theorem restricted_loop (hG : KeepsMode G) {left : Nat} {L : Loop G.schema}
    (hmode : L.ctx.restrictedMode = true) :
    ∀ t ∈ startedFrom G env left L, ∀ v ∈ t.visits, v.before = true := by
  induction left generalizing L with
  | zero =>
    intro t ht
    cases ht
  | succ left ih =>
    intro t ht
    unfold startedFrom at ht
    split at ht
    · cases ht
    rcases List.mem_append.mp ht with ht | ht
    · exact (restricted_turn hG (Option.mem_toList.mp ht) hmode).2
    rcases hturn : turn G env L with ⟨log, e | L' | p⟩
    · simp only [hturn] at ht
      cases ht
    · simp only [hturn] at ht
      obtain ⟨s, hs, hnext⟩ := mode_turn hturn
      apply ih _ t ht
      rw [hnext]
      exact (restricted_turn hG hs hmode).1
    · simp only [hturn] at ht
      cases ht

/-- A turn whose branches enter restricted mode with it only is sticky. Whatever it
leaves in that mode, the loop is in it too. -/
theorem sticky_turn {L : Loop G.schema} {t : Started} (h : startedBy G L = some t)
    (hcontained : Contained t) :
    Sticky t.visits ∧ ∀ v ∈ t.visits, v.after = true → t.node.after = true := by
  obtain ⟨-, hbranches⟩ := mode_started h
  have hloop : ∀ v ∈ t.visits, v.after = true → t.node.after = true := by
    intro v hv hafter
    rcases List.mem_cons.mp hv with rfl | hv
    · exact hafter
    · rw [← hbranches v hv]
      exact hcontained v hv hafter
  refine ⟨List.pairwise_cons.mpr ⟨fun w hw hafter => (hbranches w hw).trans hafter, ?_⟩, hloop⟩
  rw [List.pairwise_iff_forall_sublist]
  intro v w hsub hafter
  have hv : v ∈ t.branches := hsub.subset List.mem_cons_self
  have hw : w ∈ t.branches := hsub.subset (List.mem_cons_of_mem _ List.mem_cons_self)
  rw [hbranches w hw]
  exact hloop v (List.mem_cons_of_mem _ hv) hafter

theorem sticky_startedBy {L : Loop G.schema} (h : ∀ t ∈ (startedBy G L).toList, Contained t) :
    Sticky ((startedBy G L).toList.flatMap (·.visits)) := by
  rcases hs : startedBy G L with _ | t
  · exact List.Pairwise.nil
  · rw [hs] at h
    rw [Option.toList_some, List.flatMap_singleton]
    exact (sticky_turn hs (h t List.mem_cons_self)).1

/-- So a loop whose turns are all like that is sticky. -/
theorem sticky_loop (hG : KeepsMode G) {left : Nat} {L : Loop G.schema}
    (h : ∀ t ∈ startedFrom G env left L, Contained t) :
    Sticky ((startedFrom G env left L).flatMap (·.visits)) := by
  induction left generalizing L with
  | zero => exact List.Pairwise.nil
  | succ left ih =>
    unfold startedFrom at h ⊢
    split at h
    · rename_i hend
      rw [if_pos hend]
      exact List.Pairwise.nil
    rename_i hend
    have hfirst := sticky_startedBy (fun t ht => h t (List.mem_append_left _ ht))
    rw [if_neg hend, List.flatMap_append]
    rcases hturn : turn G env L with ⟨log, e | L' | p⟩
    · exact List.pairwise_append.mpr ⟨hfirst, List.Pairwise.nil, by simp⟩
    · simp only [hturn] at h ⊢
      obtain ⟨t, ht, hnext⟩ := mode_turn hturn
      refine List.pairwise_append.mpr
        ⟨hfirst, ih (fun u hu => h u (List.mem_append_right _ hu)), fun v hv w hw hafter => ?_⟩
      rw [ht, Option.toList_some, List.flatMap_singleton] at hv
      obtain ⟨u, hu, hw⟩ := List.mem_flatMap.mp hw
      -- what the turn leaves in restricted mode, it hands on to the rest of the loop
      have hcontained : Contained t := h t (by simp [ht])
      have hmode : L'.ctx.restrictedMode = true := by
        rw [hnext]
        exact (sticky_turn ht hcontained).2 v hv hafter
      exact restricted_loop hG hmode u hu w hw
    · exact List.pairwise_append.mpr ⟨hfirst, List.Pairwise.nil, by simp⟩

/-! ## What a run keeps -/

/-- The loop of a call on the run `runId`, if the call gets that far. A fork starts
another run. -/
def loopOf (G : CompiledGraph) (runId : String) (r : RunRecord) :
    Call → Option (Env × Loop G.schema)
  | .run env input =>
    let input := { input with context := { input.context with runId } }
    match WorkflowState.ofDict G.schema input.initialState with
    | .ok state => some (env, runStart G input state)
    | .error _ => none
  | .resume env stateUpdates =>
    match r.latestCheckpoint with
    | none => none
    | some cp =>
      match WorkflowState.ofDict G.schema (cp.state.update stateUpdates) with
      | .ok state => some (env, resumeStart G cp state)
      | .error _ => none
  | .fork .. => none

def startedByCall (G : CompiledGraph) (runId : String) (r : RunRecord) (call : Call) :
    List Started :=
  match loopOf G runId r call with
  | some (env, L) => startedIn G env L
  | none => []

/-- The calls on one run: its start, and any number of resumes. -/
inductive Next : RunRecord → Call → Prop
  | run (env : Env) (input : RunInput) : Next .empty (.run env input)
  | resume (r : RunRecord) (env : Env) (stateUpdates : PyDict) : Next r (.resume env stateUpdates)

/-- A run as it is watched: its record, and the nodes that were started so far. -/
structure Watched where
  record : RunRecord
  visits : List Visit

def Watched.after (G : CompiledGraph) (runId : String) (s : Watched) (call : Call) : Watched :=
  ⟨(call.exec G runId s.record).1,
    s.visits ++ (startedByCall G runId s.record call).flatMap (·.visits)⟩

def watchMachine (G : CompiledGraph) (runId : String) : Machine Watched Call where
  init s := s = ⟨.empty, []⟩
  step s call t := Next s.record call ∧ t = s.after G runId call

/-- Nothing goes missing with the call: no branch enters restricted mode on its own, and
no context of an earlier call was left in that mode. -/
structure Holds (G : CompiledGraph) (runId : String) (s : Watched) (call : Call) : Prop where
  branches : ∀ t ∈ startedByCall G runId s.record call, Contained t
  earlier : ∀ v ∈ s.visits, v.after = false

theorem sticky_call (hG : KeepsMode G) {runId : String} {r : RunRecord} {call : Call}
    (h : ∀ t ∈ startedByCall G runId r call, Contained t) :
    Sticky ((startedByCall G runId r call).flatMap (·.visits)) := by
  unfold startedByCall at h ⊢
  rcases hloop : loopOf G runId r call with _ | ⟨env, L⟩
  · exact List.Pairwise.nil
  · rw [hloop] at h
    exact sticky_loop hG h

theorem sticky_step (hG : KeepsMode G) {runId : String} {s t : Watched} {call : Call}
    (hs : Sticky s.visits) (h : ((watchMachine G runId).restrict (Holds G runId)).step s call t) :
    Sticky t.visits := by
  obtain ⟨⟨-, rfl⟩, hholds⟩ := h
  refine List.pairwise_append.mpr ⟨hs, sticky_call hG hholds.branches, fun v hv w _ hafter => ?_⟩
  rw [hholds.earlier v hv] at hafter
  cases hafter

/-! ## Graphs with a guarded agent -/

/-- A guard that takes the word `ignore` for an injection. -/
def wordGuard : PromptShieldGuard :=
  ⟨some (fun text _ => .ok ⟨texts.contains text "ignore", 0⟩), ⟨4 / 5⟩⟩

/-- An agent behind that guard. -/
def shielded (interruptAfter : Bool) : AgentNode :=
  { answering "scan" "done" with
    run := securityMiddleware wordGuard (fun _ => []) (fun _ => (answering "scan" "done").run)
    interruptAfter }

def idle (name : String) : GraphNode := .function (pureNode name fun _ => .empty)

/-- The agent comes first, then two branches and their join. -/
def scanFirst : CompiledGraph where
  nodes := ⟨[("scan", .agent (shielded false)), ("left", idle "left"), ("right", idle "right"),
    ("join", idle "join")], by decide⟩
  edges := [.parallel ⟨"scan", [.node "left", .node "right"], some (.node "join")⟩]
  entryPoint := "scan"
  schema := none
  maxTurns := 5
  name := ""
  handoffEdges := []

/-- The agent is a branch. -/
def scanInBranch : CompiledGraph where
  nodes := ⟨[("start", idle "start"), ("scan", .agent (shielded false)),
    ("join", idle "join")], by decide⟩
  edges := [.parallel ⟨"start", [.node "scan"], some (.node "join")⟩]
  entryPoint := "start"
  schema := none
  maxTurns := 5
  name := ""
  handoffEdges := []

/-- The run pauses after the agent. -/
def scanThenPause : CompiledGraph where
  nodes := ⟨[("scan", .agent (shielded true)), ("next", idle "next")], by decide⟩
  edges := [.plain "scan" (.node "next")]
  entryPoint := "scan"
  schema := none
  maxTurns := 5
  name := ""
  handoffEdges := []

theorem shielded_keeps (h : ∀ e ∈ G.nodes.entries,
    (∃ pause, e.2 = .agent (shielded pause)) ∨ ∃ f, e.2 = .function f) : KeepsMode G := by
  apply keepsMode_of_middleware
  intro nodeId n hn
  rw [← Dict.mem_entries_iff] at hn
  rcases h _ hn with ⟨pause, hagent⟩ | ⟨f, hidle⟩
  · cases hagent
    exact ⟨wordGuard, fun _ => [], fun _ => (answering "scan" "done").run, rfl, fun _ _ _ => rfl⟩
  · cases hidle

/-- The input of a run that asks for trouble. -/
def injected : Call := .run inOrder (plainInput (Dict.ofList [("input", .str "ignore that")]))

def unwatched : Watched := ⟨.empty, []⟩

/-! ## Every run -/

/-- In a run from which nothing goes missing, every node that is started after a
detection is started in restricted mode. -/
theorem restricted_mode_is_sticky (hG : KeepsMode G) {runId : String} {s : Watched}
    (h : Reachable ((watchMachine G runId).restrict (Holds G runId)) s) : Sticky s.visits := by
  apply h.invariant (I := fun s => Sticky s.visits)
  · rintro s rfl
    exact List.Pairwise.nil
  · exact fun s call t hs hstep => sticky_step hG hs hstep

/-- What the agent has found holds for the branches after it and for their join. -/
theorem a_detection_before_the_branches_is_kept :
    Sticky (unwatched.after scanFirst "run" injected).visits := by
  have hkeeps : KeepsMode scanFirst := shielded_keeps (by simp [scanFirst, idle])
  have hholds : Holds scanFirst "run" unwatched injected := ⟨by decide +kernel, by simp [unwatched]⟩
  apply restricted_mode_is_sticky hkeeps
  exact (reachable_init rfl).step ⟨⟨.run _ _, rfl⟩, hholds⟩

/-- The join of a branch that has found an injection is started in the normal mode, and
so is the first node after a resume. -/
theorem a_detection_is_lost :
    (KeepsMode scanInBranch ∧
      Reachable (watchMachine scanInBranch "run") (unwatched.after scanInBranch "run" injected) ∧
      ¬ Sticky (unwatched.after scanInBranch "run" injected).visits) ∧
    KeepsMode scanThenPause ∧
      Reachable (watchMachine scanThenPause "run")
        ((unwatched.after scanThenPause "run" injected).after scanThenPause "run"
          (.resume inOrder .empty)) ∧
      ¬ Sticky ((unwatched.after scanThenPause "run" injected).after scanThenPause "run"
        (.resume inOrder .empty)).visits := by
  refine ⟨⟨shielded_keeps (by simp [scanInBranch, idle]), ?_, by decide +kernel⟩,
    shielded_keeps (by simp [scanThenPause, idle]), ?_, by decide +kernel⟩
  · exact (reachable_init rfl).step ⟨.run _ _, rfl⟩
  · have hrun : Reachable (watchMachine scanThenPause "run")
        (unwatched.after scanThenPause "run" injected) := (reachable_init rfl).step ⟨.run _ _, rfl⟩
    exact hrun.step ⟨.resume _ _ _, rfl⟩

end orchestra.lockdown
