-- A subgraph as a node (`SubgraphNode` of `nodes.py`): the nested graph runs in a new
-- context of its own. What a graph does in two contexts that its nodes and edges
-- cannot tell apart is the same.
import Orchestra.Runs
import Orchestra.Twins

open dicts logged orchestra.state orchestra.edges orchestra.events orchestra.nodes
open orchestra.compiled orchestra.turns orchestra.runs orchestra.twins

namespace orchestra.subgraphs

/-! ## The node -/

/-- An exception of the nested run, as the outer engine gets it. -/
def asRaised : EngineError → Raised
  | .raised e => e
  | e => ⟨e.type, e.message, e.type ∈ ["AgentError", "MaxIterationsError", "GraphCompileError"]⟩

def interruptText : InterruptType → String
  | .before => "before"
  | .after => "after"

/-- What `run` returns when it pauses: the state with the `__metadata__` of the pause. -/
def pausedState (runId : String) (p : Pause) : PyDict :=
  p.state.set "__metadata__" (.dict
    ([("run_id", .str runId), ("status", .str "interrupted"),
      ("interrupted_at", .str p.interruptedAt), ("interrupt_type", .str (interruptText p.type))] ++
    match p.type with
    | .before => []
    | .after => [("next_node", .str p.nodeId)]))

/-- `await self.graph.run(state)`, which makes a new context. -/
def nestedRun (G : CompiledGraph) (env : Env) (runId : String) (state : PyDict) :
    Except Raised PyDict :=
  match (run G env ⟨state, none, freshCtx runId⟩).outcome with
  | .completed result => .ok result
  | .interrupted p => .ok (pausedState runId p)
  | .raised e => .error (asRaised e)

/-- A subgraph without mappers. Each call gets a run id of its own. -/
def subgraphNode (G : CompiledGraph) (env : Env) (runId : Moment → String)
    (interruptBefore interruptAfter : Bool) : SubgraphNode where
  run state moment := nestedRun G env (runId moment) state
  inputMapper := none
  outputMapper := none
  interruptBefore
  interruptAfter

/-- The context in which the nested run starts. -/
def nestedCtx (runId : String) : Ctx := { freshCtx runId with hasBus := true }

/-- The same graph over another state class. -/
@[reducible] def withClass (G : CompiledGraph) (schema : Option Schema) : CompiledGraph :=
  { G with schema }

/-! ## Contexts that a graph cannot tell apart -/

/-- Equal but for the loop counters, which an edge shows in the state. -/
def SameFields (d e : PyDict) : Prop := d.erase loopCountersKey = e.erase loopCountersKey

theorem SameFields.refl (d : PyDict) : SameFields d d := rfl

/-- The context after a node has run in it. -/
def ranIn (ctx : Ctx) (nodeId : String) (restrictedMode : Bool) : Ctx :=
  { ctx with
    restrictedMode
    nodeExecutionOrder := ctx.nodeExecutionOrder ++ [nodeId] }

/-- Related contexts stay related, and nodes and conditional edges answer alike
in them. -/
structure Bisimulation (G : CompiledGraph) (R : Ctx → Ctx → Prop) : Prop where
  bus : ∀ c d, R c d → c.hasBus = d.hasBus
  enter : ∀ (c d : Ctx) turn turn' nodeId moment moment', R c d →
    R { c with turnNumber := turn, nodeId, moment }
      { d with turnNumber := turn', nodeId, moment := moment' }
  branch : ∀ c d nodeId i, R c d → R (c.cloneForBranch nodeId i) (d.cloneForBranch nodeId i)
  node : ∀ nodeId node, G.nodes.get? nodeId = some node → ∀ c d state state', R c d →
    SameFields state state' →
    Logged.Agree (fun x y => x.1 = y.1 ∧ R (ranIn c nodeId x.2) (ranIn d nodeId y.2))
      (executeNode G.schema nodeId node state c).result
      (executeNode G.schema nodeId node state' d).result
  edge : ∀ e, .conditional e ∈ G.edges → ∀ c d (state : PyDict), R c d →
    Logged.Agree
      (fun x y => x.1 = y.1 ∧ R { c with loopCounters := x.2 } { d with loopCounters := y.2 })
      (e.resolve (state.set loopCountersKey c.loopCounters.value) c.loopCounters)
      (e.resolve (state.set loopCountersKey d.loopCounters.value) d.loopCounters)

/-- The nodes and edges of the graph cannot tell the two contexts apart. -/
def Indistinct (G : CompiledGraph) (c d : Ctx) : Prop := ∃ R, Bisimulation G R ∧ R c d

/-- No node of the graph pauses. -/
def Uninterrupted (G : CompiledGraph) : Prop :=
  ∀ nodeId node, G.nodes.get? nodeId = some node →
    node.interruptBefore = false ∧ node.interruptAfter = false

section alike

variable {G : CompiledGraph} {R : Ctx → Ctx → Prop} {env env' : Env} {c d : Ctx}

/-! ## The way out of a node -/

/-- Two branches of one node, whose states differ at most in the loop counters. -/
structure SameBranch (G : CompiledGraph) (a b : Branch) : Prop where
  nodeId : a.nodeId = b.nodeId
  node : a.node = b.node
  there : G.nodes.get? a.nodeId = some a.node
  state : SameFields a.state b.state

/-- The same update, or the same error. -/
def SameAnswer (x y : Eng (PyDict × Bool)) : Prop :=
  Logged.Agree (fun a b => a.1 = b.1) x.result y.result

theorem runBranches_agree (hR : Bisimulation G R) (hcd : R c d) {bs bs' : List Branch}
    (h : List.Forall₂ (SameBranch G) bs bs') :
    List.Forall₂ SameAnswer (runBranches G.schema c bs) (runBranches G.schema d bs') := by
  refine forall₂_mapIdx h (fun i a b hab => ?_)
  rw [← hab.nodeId, ← hab.node]
  have hagree := hR.node a.nodeId a.node hab.there _ _ a.state b.state
    (hR.branch c d a.nodeId i hcd) hab.state
  exact hagree.imp (fun _ _ hboth => hboth.1)

theorem branches_agree {xs ys : List (Eng (PyDict × Bool))} (h : List.Forall₂ SameAnswer xs ys) :
    xs.filterMap errorOf = ys.filterMap errorOf ∧
      xs.filterMap updateOf = ys.filterMap updateOf := by
  induction h with
  | nil => exact ⟨rfl, rfl⟩
  | @cons x y xs ys hxy _ ih =>
    obtain ⟨herrors, hupdates⟩ := ih
    rcases hx : x.result with e | ⟨update, mode⟩
    · have hy := Logged.agree_error hxy hx
      simp [errorOf, updateOf, hx, hy, herrors, hupdates]
    · obtain ⟨⟨update', mode'⟩, hy, rfl⟩ := Logged.agree_ok hxy hx
      simp [errorOf, updateOf, hx, hy, herrors, hupdates]

theorem fanOut_agree (hR : Bisimulation G R) (hcd : R c d) (f : List EngineError → EngineError)
    {bs bs' : List Branch} (h : List.Forall₂ (SameBranch G) bs bs')
    (state : WorkflowState G.schema) :
    (fanOut env c f bs state).result = (fanOut env' d f bs' state).result := by
  obtain ⟨herrors, hupdates⟩ := branches_agree (runBranches_agree hR hcd h)
  simp only [fanOut, Logged.notes, herrors, hupdates]

theorem lookupNodes_there {targets : List Target} {found : List (String × GraphNode)}
    (h : lookupNodes G targets = .ok found) : ∀ t ∈ found, G.nodes.get? t.1 = some t.2 := by
  induction targets generalizing found with
  | nil =>
    cases h
    simp
  | cons target rest ih =>
    cases target with
    | END => cases h
    | node id =>
      simp only [lookupNodes] at h
      rcases hn : G.nodes.get? id with _ | node
      · rw [hn] at h
        cases h
      · rw [hn] at h
        rcases hl : lookupNodes G rest with e | others
        · rw [hl] at h
          cases h
        · rw [hl] at h
          cases h
          intro t ht
          rcases List.mem_cons.mp ht with rfl | ht
          · exact hn
          · exact ih hl t ht

theorem executeParallel_agree (hR : Bisimulation G R) (hcd : R c d) (e : ParallelEdge)
    (stateDict : PyDict) (state : WorkflowState G.schema) :
    (executeParallel G env c e stateDict state).result =
      (executeParallel G env' d e stateDict state).result := by
  rw [← Logged.agree_eq]
  unfold executeParallel
  rcases hl : lookupNodes G e.targets with error | found
  · rfl
  · refine Logged.agree_eq.mpr (fanOut_agree hR hcd parallelFailure ?_ state)
    rw [List.forall₂_map_left_iff, List.forall₂_map_right_iff, List.forall₂_same]
    exact fun t ht => ⟨rfl, rfl, lookupNodes_there hl t ht, rfl⟩

theorem executeSends_agree (hR : Bisimulation G R) (hcd : R c d) (sends : List Send)
    {stateDict stateDict' : PyDict} (hstate : SameFields stateDict stateDict')
    (state : WorkflowState G.schema) :
    (executeSends G env c sends stateDict state).result =
      (executeSends G env' d sends stateDict' state).result := by
  rw [← Logged.agree_eq]
  unfold executeSends
  rcases hl : lookupNodes G (sends.map (fun s => .node s.node)) with error | found
  · simp only [hl]
    rfl
  · simp only [hl]
    refine Logged.agree_eq.mpr (fanOut_agree hR hcd sendFailure ?_ state)
    have hthere := lookupNodes_there hl
    clear hl
    induction found generalizing sends with
    | nil => exact .nil
    | cons t rest ih =>
      cases sends with
      | nil => exact .nil
      | cons s others =>
        refine .cons ⟨rfl, rfl, hthere t (List.mem_cons_self ..), ?_⟩ ?_
        · exact Dict.erase_update hstate s.state
        · exact ih others (fun u hu => hthere u (List.mem_cons_of_mem _ hu))

theorem handoff_agree (hbus : c.hasBus = d.hasBus) (e : HandoffEdge) (stateDict : PyDict)
    (state : WorkflowState G.schema) :
    (handoff c e stateDict state).result = (handoff d e stateDict state).result := by
  unfold handoff
  rw [hbus]

/-- The same next node and state. -/
def SameExit (R : Ctx → Ctx → Prop) (c d : Ctx) (r s : Resolution G.schema) : Prop :=
  r.next = s.next ∧ r.state = s.state ∧
    R { c with loopCounters := r.loopCounters } { d with loopCounters := s.loopCounters }

theorem resolveNext_agree (hR : Bisimulation G R) (hcd : R c d) (nodeId : String)
    (state : WorkflowState G.schema) :
    Logged.Agree (SameExit R c d) (resolveNext G env c nodeId state.data state).result
      (resolveNext G env' d nodeId state.data state).result := by
  unfold resolveNext
  rcases hedges : G.edgesFrom nodeId with _ | ⟨⟨source, target⟩ | e | e, rest⟩
  · refine Logged.agree_bind (R := (· = ·)) (Logged.agree_eq.mpr rfl) ?_
    rintro picked _ rfl
    cases picked with
    | none => exact ⟨rfl, rfl, hcd⟩
    | some e =>
      refine Logged.agree_bind (R := (· = ·))
        (Logged.agree_eq.mpr (handoff_agree (hR.bus c d hcd) e _ state)) ?_
      rintro s _ rfl
      exact ⟨rfl, rfl, hcd⟩
  · exact ⟨rfl, rfl, hcd⟩
  · have hmem : .conditional e ∈ G.edges := by
      have hfirst : GraphEdge.conditional e ∈ G.edgesFrom nodeId := by
        rw [hedges]
        exact List.mem_cons_self ..
      exact (List.mem_filter.mp hfirst).1
    refine Logged.agree_bind (hR.edge e hmem c d state.data hcd) ?_
    rintro ⟨result, counters⟩ ⟨_, counters'⟩ ⟨rfl, hcounters⟩
    cases result with
    | next target => exact ⟨rfl, rfl, hcounters⟩
    | sends sends =>
      have hfields : SameFields (state.data.set loopCountersKey counters.value)
          (state.data.set loopCountersKey counters'.value) := by
        unfold SameFields
        rw [Dict.erase_set_self, Dict.erase_set_self]
      refine Logged.agree_bind (R := (· = ·))
        (Logged.agree_eq.mpr (executeSends_agree hR hcd sends hfields state)) ?_
      rintro s _ rfl
      exact ⟨rfl, rfl, hcounters⟩
  · refine Logged.agree_bind (R := (· = ·))
      (Logged.agree_eq.mpr (executeParallel_agree hR hcd e _ state)) ?_
    rintro s _ rfl
    exact ⟨rfl, rfl, hcd⟩

/-! ## One turn -/

theorem completeNode_agree (hR : Bisimulation G R) (hcd : R c d) {nodeId : String}
    {node : GraphNode} (hn : G.nodes.get? nodeId = some node) (state : WorkflowState G.schema) :
    Logged.Agree (fun x y => x.1 = y.1 ∧ R x.2 y.2) (completeNode nodeId node state c).result
      (completeNode nodeId node state d).result := by
  unfold completeNode emit
  refine Logged.agree_bind (R := fun _ _ => True) trivial (fun _ _ _ => ?_)
  refine Logged.agree_bind (hR.node nodeId node hn c d state.data state.data hcd (.refl _)) ?_
  rintro ⟨update, mode⟩ ⟨_, mode'⟩ ⟨rfl, hafter⟩
  refine Logged.agree_bind (R := (· = ·)) (Logged.agree_eq.mpr rfl) ?_
  rintro s _ rfl
  refine Logged.agree_bind (R := fun _ _ => True) trivial (fun _ _ _ => ?_)
  refine Logged.agree_bind (R := fun _ _ => True) trivial (fun _ _ _ => ?_)
  exact ⟨rfl, hafter⟩

/-- Two loops at the same node with the same state, in related contexts. -/
structure Beside (R : Ctx → Ctx → Prop) (L M : Loop G.schema) : Prop where
  current : L.current = M.current
  state : L.state = M.state
  ctx : R L.ctx M.ctx

theorem walk_agree (hR : Bisimulation G R) {L M : Loop G.schema} (hLM : Beside R L M)
    {node : GraphNode} (hn : G.nodes.get? L.current.text = some node) :
    Logged.Agree (fun x y => Beside R (Loop.after x.1 x.2) (Loop.after y.1 y.2))
      (walk G env L node).result (walk G env' M node).result := by
  have henter : R L.enter M.enter := by
    unfold Loop.enter
    rw [hLM.current]
    exact hR.enter _ _ _ _ _ _ _ hLM.ctx
  unfold walk
  rw [← hLM.current, ← hLM.state]
  refine Logged.agree_bind (completeNode_agree hR henter hn L.state) ?_
  rintro ⟨s, c'⟩ ⟨_, d'⟩ ⟨rfl, hafter⟩
  refine Logged.agree_bind (resolveNext_agree hR hafter L.current.text s) ?_
  rintro r r' ⟨hnext, hstate, hctx⟩
  exact ⟨hnext, hstate, hctx⟩

/-! ## The loop -/

/-- The state that a loop ends with, if it comes to its end. -/
def stateOf? : Ending → Option PyDict
  | .completed state => some state
  | _ => none

/-- A turn without a pause is a walk. -/
theorem turn_uninterrupted (hG : Uninterrupted G) (L : Loop G.schema) :
    turn G env L =
      match G.nodes.get? L.current.text with
      | none => Logged.fail (.nodeNotFound L.current.text G.nodes.keys)
      | some node => walk G env L node >>= fun x => pure (.next (Loop.after x.1 x.2)) := by
  rcases hn : G.nodes.get? L.current.text with _ | node
  · exact turn_unknown hn
  · obtain ⟨hbefore, hafter⟩ := hG _ node hn
    rw [turn_walking hn (by rw [hbefore]; rfl)]
    simp only [hafter, Bool.false_eq_true, if_false]

/-- Loops beside each other come to the same end. -/
theorem endings_agree (env env' : Env) (hR : Bisimulation G R) (hG : Uninterrupted G) (left : Nat)
    {L M : Loop G.schema} (hLM : Beside R L M) :
    stateOf? (loopFrom G env left L).ending = stateOf? (loopFrom G env' left M).ending := by
  induction left generalizing L M with
  | zero =>
    unfold loopFrom
    rw [← hLM.current, ← hLM.state]
    split <;> rfl
  | succ left ih =>
    unfold loopFrom
    rw [← hLM.current, ← hLM.state]
    by_cases hend : L.current = .END
    · simp only [if_pos hend]
    · simp only [if_neg hend]
      have hturn : Logged.Agree (fun x y => ∃ L' M', x = .next L' ∧ y = .next M' ∧ Beside R L' M')
          (turn G env L).result (turn G env' M).result := by
        rw [turn_uninterrupted hG L, turn_uninterrupted hG M, ← hLM.current]
        rcases hn : G.nodes.get? L.current.text with _ | node
        · rfl
        · refine Logged.agree_bind (walk_agree hR hLM hn) ?_
          intro x y hxy
          exact ⟨_, _, rfl, rfl, hxy⟩
      rcases hx : (turn G env L).result with error | ended
      · rw [Logged.agree_error hturn hx]
      · obtain ⟨ended', hy, L', M', rfl, rfl, hbeside⟩ := Logged.agree_ok hturn hx
        rw [hy]
        exact ih hbeside

theorem not_interrupted (env : Env) (hG : Uninterrupted G) (left : Nat) (L : Loop G.schema)
    (p : Pause) : (loopFrom G env left L).ending ≠ .interrupted p := by
  induction left generalizing L with
  | zero =>
    unfold loopFrom
    split <;> simp
  | succ left ih =>
    unfold loopFrom
    split
    · simp
    · rcases ht : turn G env L with ⟨log, e | L' | q⟩
      · simp
      · exact ih L'
      · obtain ⟨node, hn, hpause⟩ := turn_paused ht
        obtain ⟨hbefore, hafter⟩ := hG _ node hn
        rw [hbefore, hafter] at hpause
        simp at hpause

/-- The nested run of a graph ends with the state with which its loop ends in a
context that the graph cannot tell from a new one. -/
theorem nestedRun_agree (hG : Uninterrupted G) {runId : String}
    (h : Indistinct G (nestedCtx runId) c) (state : WorkflowState G.schema) :
    (nestedRun G env runId state.data).toOption =
      stateOf? (loopFrom G env' G.maxTurns ⟨.node G.entryPoint, state, c, false⟩).ending := by
  obtain ⟨R, hR, hc⟩ := h
  have hstart : runStart G ⟨state.data, none, freshCtx runId⟩ state =
      ⟨.node G.entryPoint, state, nestedCtx runId, false⟩ := rfl
  have hbeside : Beside (G := G) R ⟨.node G.entryPoint, state, nestedCtx runId, false⟩
      ⟨.node G.entryPoint, state, c, false⟩ := ⟨rfl, rfl, hc⟩
  have hends := endings_agree env env' hR hG G.maxTurns hbeside
  have hnot := not_interrupted env hG G.maxTurns
    ⟨.node G.entryPoint, state, nestedCtx runId, false⟩
  rw [← hends]
  unfold nestedRun
  rw [run_valid G env ⟨state.data, none, freshCtx runId⟩ (WorkflowState.ofDict_data state),
    outcome_finish, hstart]
  have hleft : runLoop G env ⟨.node G.entryPoint, state, nestedCtx runId, false⟩ =
      loopFrom G env G.maxTurns ⟨.node G.entryPoint, state, nestedCtx runId, false⟩ := rfl
  rw [hleft]
  rcases hend : (loopFrom G env G.maxTurns
      ⟨.node G.entryPoint, state, nestedCtx runId, false⟩).ending with s | p | ⟨nodeId, e⟩
  · rfl
  · exact absurd hend (hnot p)
  · rfl

end alike

end orchestra.subgraphs
