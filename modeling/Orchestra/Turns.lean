-- The laws of one turn of the engine and of its loop: what a turn that goes
-- on has done, what a turn that pauses has saved, and that a whole run is a
-- path of turns and a last one.
import Orchestra.Compiled
import Orchestra.Lib.Machine

open dicts logged machine orchestra.state orchestra.edges orchestra.events orchestra.nodes
open orchestra.compiled

namespace orchestra.turns

variable {G : CompiledGraph} {env : Env} {schema : Option Schema}

/-! ## The way out of a node -/

theorem inGraph_of_stateError {e : EngineError} (h : StateError e) : InGraph e := by
  cases e <;> first | rfl | exact h.elim

theorem inGraph_apply {state : WorkflowState schema} {update : PyDict} {e : EngineError}
    (h : state.apply update = .error e) : InGraph e := by
  cases schema with
  | none => cases h
  | some S =>
    simp only [WorkflowState.apply] at h
    split at h
    · cases h
    · rename_i e' he
      cases h
      exact inGraph_of_stateError (stateError_apply he)

theorem inGraph_merge {state : WorkflowState schema} {updates : List PyDict} {e : EngineError}
    (h : state.merge updates = .error e) : InGraph e := by
  cases schema with
  | none => cases h
  | some S =>
    simp only [WorkflowState.merge] at h
    split at h
    · cases h
    · rename_i e' he
      cases h
      exact inGraph_of_stateError (stateError_merge he)

theorem quiet_fanOut {ctx : Ctx} {f : List EngineError → EngineError}
    {branches : List Branch} {state : WorkflowState schema} (hf : ∀ es, InGraph (f es)) :
    Logged.Meets Quiet (fun _ => True) InGraph (fanOut env ctx f branches state) := by
  refine Logged.meets_notes ?_ (fun _ _ => trivial) ?_
  · intro n hn
    have hmem := (env.gather_perm _).mem_iff.mp hn
    obtain ⟨log, hlog, hin⟩ := List.mem_flatten.mp hmem
    obtain ⟨run, hrun, rfl⟩ := List.mem_map.mp hlog
    obtain ⟨i, hi, rfl⟩ := List.mem_mapIdx.mp hrun
    exact quiet_executeNode.notes n hin
  · intro e he
    split at he
    · cases he
      exact hf _
    · exact inGraph_merge he

/-- The lookups of a fan-out raise what `E` allows. -/
def LookupMeets (G : CompiledGraph) (E : EngineError → Prop) (targets : List Target) : Prop :=
  ∀ err, lookupNodes G targets = .error err → E err

/-- An answer of a conditional edge names what `P` allows. -/
def ResolvedMeets (G : CompiledGraph) (P : Target → Prop) (E : EngineError → Prop) :
    Resolved → Prop
  | .next target => P target
  | .sends sends => P .END ∧ LookupMeets G E (sends.map (fun s => .node s.node))

/-- What the way out of a node may name, `P`, and what it may raise because
of the edges themselves, `E`. -/
def ExitMeets (G : CompiledGraph) (nodeId : String) (stateDict : PyDict) (P : Target → Prop)
    (E : EngineError → Prop) : Prop :=
  match G.edgesFrom nodeId with
  | .plain _ target :: _ => P target
  | .conditional e :: _ => ∀ shown counters,
    (∀ err, e.resolve shown counters = .error err → E err) ∧
      ∀ r, e.resolve shown counters = .ok r → ResolvedMeets G P E r.1
  | .parallel e :: _ => P (e.joinNode.getD .END) ∧ LookupMeets G E e.targets
  | [] =>
    P .END ∧ ∀ e, pickHandoff nodeId stateDict G.handoffEdges = .ok (some e) →
      P (.node e.target)

variable {P : Target → Prop} {E : EngineError → Prop}

theorem meets_executeParallel {ctx : Ctx} {edge : ParallelEdge} {stateDict : PyDict}
    {state : WorkflowState G.schema} (hE : ∀ e, InGraph e → E e)
    (hl : LookupMeets G E edge.targets) :
    Logged.Meets Quiet (fun _ => True) E (executeParallel G env ctx edge stateDict state) := by
  unfold executeParallel
  refine Logged.meets_bind (Logged.meets_ofExcept (fun _ _ => trivial) hl) (fun targets _ _ => ?_)
  exact (quiet_fanOut (f := parallelFailure) (fun _ => rfl)).weaken (fun _ h => h)
    (fun _ h => h) hE

theorem meets_executeSends {ctx : Ctx} {sends : List Send} {stateDict : PyDict}
    {state : WorkflowState G.schema} (hE : ∀ e, InGraph e → E e)
    (hl : LookupMeets G E (sends.map (fun s => .node s.node))) :
    Logged.Meets Quiet (fun _ => True) E (executeSends G env ctx sends stateDict state) := by
  unfold executeSends
  refine Logged.meets_bind (Logged.meets_ofExcept (fun _ _ => trivial) hl) (fun targets _ _ => ?_)
  exact (quiet_fanOut (f := sendFailure) (fun _ => rfl)).weaken (fun _ h => h)
    (fun _ h => h) hE

theorem quiet_handoff {ctx : Ctx} {e : HandoffEdge} {stateDict : PyDict}
    {state : WorkflowState schema} :
    Logged.Meets Quiet (fun _ => True) InGraph (handoff ctx e stateDict state) := by
  unfold handoff
  refine Logged.meets_bind (quiet_outside (P := fun _ => True) (fun _ _ => trivial))
    (fun history _ _ => ?_)
  split
  · refine Logged.meets_bind (Logged.meets_note trivial) (fun _ _ _ => ?_)
    refine Logged.meets_bind (Logged.meets_note trivial) (fun _ _ _ => ?_)
    exact Logged.meets_ofExcept (fun _ _ => trivial) (fun _ h => inGraph_apply h)
  · exact Logged.meets_fail rfl

/-- The resolution of the next node writes no event of the main path. It names
and raises what its edges allow. -/
theorem meets_resolveNext {ctx : Ctx} {nodeId : String} {stateDict : PyDict}
    {state : WorkflowState G.schema} (hE : ∀ e, InGraph e → E e)
    (h : ExitMeets G nodeId stateDict P E) :
    Logged.Meets Quiet (fun r => P r.next) E
      (resolveNext G env ctx nodeId stateDict state) := by
  unfold resolveNext
  unfold ExitMeets at h
  rcases hedges : G.edgesFrom nodeId with _ | ⟨⟨source, target⟩ | e | e, rest⟩
  all_goals rw [hedges] at h
  · refine Logged.meets_bind (P := fun picked => ∀ e, picked = some e → P (.node e.target)) ?_
      (fun picked _ hp => ?_)
    · refine (quiet_outside ?_).weaken (fun _ hn => hn) (fun _ hp => hp) hE
      rintro picked hpicked e rfl
      exact h.2 e hpicked
    · cases picked with
      | none => exact Logged.meets_pure h.1
      | some e =>
        refine Logged.meets_bind (quiet_handoff.weaken (fun _ hn => hn) (fun _ ht => ht) hE)
          (fun _ _ _ => ?_)
        exact Logged.meets_pure (hp e rfl)
  · exact Logged.meets_pure h
  · obtain ⟨herr, hok⟩ := h (stateDict.set loopCountersKey ctx.loopCounters.value) ctx.loopCounters
    refine Logged.meets_bind (Logged.meets_ofExcept hok herr) ?_
    rintro ⟨result, counters⟩ - hr
    cases result with
    | next target => exact Logged.meets_pure hr
    | sends sends =>
      refine Logged.meets_bind (meets_executeSends hE hr.2) (fun _ _ _ => ?_)
      exact Logged.meets_pure hr.1
  · refine Logged.meets_bind (meets_executeParallel hE h.2) (fun _ _ _ => ?_)
    exact Logged.meets_pure h.1

/-- Whatever the edges are, the way out writes no event of the main path. -/
theorem quiet_resolveNext {ctx : Ctx} {nodeId : String} {stateDict : PyDict}
    {state : WorkflowState G.schema} :
    ∀ n ∈ (resolveNext G env ctx nodeId stateDict state).log, Quiet n := by
  have h : ExitMeets G nodeId stateDict (fun _ => True) (fun _ => True) := by
    unfold ExitMeets
    split
    · trivial
    · refine fun _ _ => ⟨fun _ _ => trivial, ?_⟩
      rintro ⟨target | sends, counters⟩ -
      · trivial
      · exact ⟨trivial, fun _ _ => trivial⟩
    · exact ⟨trivial, fun _ _ => trivial⟩
    · exact ⟨trivial, fun _ _ => trivial⟩
  exact (meets_resolveNext (fun _ _ => trivial) h).notes

/-! ## A way out that keeps the state -/

/-- The updates of the branches, merged, leave the state as it is. -/
def BranchesKeep (ctx : Ctx) (branches : List Branch) (state : WorkflowState G.schema) : Prop :=
  ∀ s, state.merge ((runBranches G.schema ctx branches).filterMap updateOf) = .ok s → s = state

/-- The way out of the node changes nothing: there is no handoff, and no
branch of a fan-out has anything new to say. -/
def ExitKeeps (G : CompiledGraph) (ctx : Ctx) (nodeId : String)
    (state : WorkflowState G.schema) : Prop :=
  match G.edgesFrom nodeId with
  | .plain .. :: _ => True
  | .conditional e :: _ => ∀ sends counters targets,
    e.resolve (state.data.set loopCountersKey ctx.loopCounters.value) ctx.loopCounters =
      .ok (.sends sends, counters) →
    lookupNodes G (sends.map (fun s => .node s.node)) = .ok targets →
    BranchesKeep ctx (List.zipWith (fun t s => ⟨t.1, t.2,
      (state.data.set loopCountersKey counters.value).update s.state⟩) targets sends) state
  | .parallel e :: _ => ∀ targets, lookupNodes G e.targets = .ok targets →
    BranchesKeep ctx (targets.map (fun t => ⟨t.1, t.2, state.data⟩)) state
  | [] => ∀ e, pickHandoff nodeId state.data G.handoffEdges ≠ .ok (some e)

theorem fanOut_keeps {ctx : Ctx} {f : List EngineError → EngineError} {branches : List Branch}
    {state s : WorkflowState G.schema} {log : List Note} (h : BranchesKeep ctx branches state)
    (hs : fanOut env ctx f branches state = ⟨log, .ok s⟩) : s = state := by
  have hresult := congrArg Logged.result hs
  simp only [fanOut, Logged.notes] at hresult
  split at hresult
  · cases hresult
  · exact h s hresult

theorem resolveNext_keeps {ctx : Ctx} {nodeId : String} {state : WorkflowState G.schema}
    {log : List Note} {r : Resolution G.schema} (h : ExitKeeps G ctx nodeId state)
    (hr : resolveNext G env ctx nodeId state.data state = ⟨log, .ok r⟩) : r.state = state := by
  unfold resolveNext at hr
  unfold ExitKeeps at h
  split at hr <;> rename_i heq <;> simp only [heq] at h
  · cases hr
    rfl
  · obtain ⟨l, ⟨result, counters⟩, m, hres, hrest, -⟩ := Logged.of_bind_ok hr
    have hres : _ = Except.ok (result, counters) := congrArg Logged.result hres
    cases result with
    | next target =>
      cases hrest
      rfl
    | sends sends =>
      obtain ⟨l', s, m', hsends, hdone, -⟩ := Logged.of_bind_ok hrest
      cases hdone
      unfold executeSends at hsends
      obtain ⟨l'', targets, m'', htargets, hfan, -⟩ := Logged.of_bind_ok hsends
      exact fanOut_keeps (h sends counters targets hres (congrArg Logged.result htargets)) hfan
  · obtain ⟨l, s, m, hpar, hdone, -⟩ := Logged.of_bind_ok hr
    cases hdone
    unfold executeParallel at hpar
    obtain ⟨l', targets, m', htargets, hfan, -⟩ := Logged.of_bind_ok hpar
    exact fanOut_keeps (h targets (congrArg Logged.result htargets)) hfan
  · obtain ⟨l, picked, m, hpick, hrest, -⟩ := Logged.of_bind_ok hr
    cases picked with
    | none =>
      cases hrest
      rfl
    | some e =>
      rcases hp : pickHandoff nodeId state.data G.handoffEdges with error | picked
      · rw [hp] at hpick
        cases hpick
      · rw [hp] at hpick
        cases hpick
        exact absurd hp (h e)

/-! ## The middle of a turn -/

/-- What a node that completes has done: it ran, its update went into the
state, and the two events around it were written. -/
structure Completed (nodeId : String) (node : GraphNode) (state : WorkflowState schema) (ctx : Ctx)
    (log : List Note) (state' : WorkflowState schema) (ctx' : Ctx) (update : PyDict)
    (restrictedMode : Bool) (nodeLog : List Note) : Prop where
  ran : executeNode schema nodeId node state.data ctx = ⟨nodeLog, .ok (update, restrictedMode)⟩
  applied : state.applyAny update = .ok state'
  left : ctx' = { ctx with
    restrictedMode := restrictedMode
    nodeExecutionOrder := ctx.nodeExecutionOrder ++ [nodeId] }
  wrote : log = .emit ⟨.nodeStarted nodeId node.typeName, true⟩ :: (nodeLog ++
    [.emit ⟨.nodeCompleted nodeId node.typeName update, true⟩, .holds state'.data])

theorem completeNode_ok {nodeId : String} {node : GraphNode} {state state' : WorkflowState schema}
    {ctx ctx' : Ctx} {log : List Note}
    (h : completeNode nodeId node state ctx = ⟨log, .ok (state', ctx')⟩) :
    ∃ update mode nodeLog, Completed nodeId node state ctx log state' ctx' update mode nodeLog := by
  unfold completeNode emit at h
  rw [Logged.note_bind] at h
  rcases hx : executeNode schema nodeId node state.data ctx with ⟨nodeLog, e | ⟨update, mode⟩⟩
  · rw [hx, Logged.bind_error _ rfl] at h
    cases h
  · rw [hx, Logged.bind_ok _ rfl] at h
    rcases hs : state.applyAny update with e | s
    · simp only [hs, Logged.ofExcept] at h
      cases h
    · simp only [hs, Logged.ofExcept] at h
      cases h
      exact ⟨update, mode, nodeLog, hx, hs, rfl, rfl⟩

/-! ## One turn -/

/-- The part of a turn that both ways out share: the node, then the
resolution of the next one. -/
def walk (G : CompiledGraph) (env : Env) (L : Loop G.schema) (node : GraphNode) :
    Eng (Ctx × Resolution G.schema) := do
  let (state, ctx) ← completeNode L.current.text node L.state L.enter
  let r ← resolveNext G env ctx L.current.text state.data state
  pure (ctx, r)

/-- Where the loop stands after a walk. -/
def Loop.after (ctx : Ctx) (r : Resolution schema) : Loop schema :=
  ⟨r.next, r.state, { ctx with loopCounters := r.loopCounters }, false⟩

/-- What a pause before a node saves. -/
def pauseBefore (L : Loop schema) : Pause :=
  ⟨L.current.text, .before, L.current.text, L.state.data, L.ctx.loopCounters,
    L.ctx.nodeExecutionOrder⟩

/-- What a pause after a node saves. -/
def pauseAfter (L : Loop schema) (ctx : Ctx) (r : Resolution schema) : Pause :=
  ⟨L.current.text, .after, r.next.text, r.stateDict, r.loopCounters, ctx.nodeExecutionOrder⟩

theorem turn_unknown {L : Loop G.schema} (h : G.nodes.get? L.current.text = none) :
    turn G env L = Logged.fail (.nodeNotFound L.current.text G.nodes.keys) := by
  unfold turn
  simp only [h]

theorem turn_pausing {L : Loop G.schema} {node : GraphNode}
    (hn : G.nodes.get? L.current.text = some node)
    (hb : (node.interruptBefore && !L.bypass) = true) :
    turn G env L = ⟨[.emit ⟨.interruptRequested L.current.text .before, true⟩],
      .ok (.paused (pauseBefore L))⟩ := by
  unfold turn
  simp only [hn, hb, if_true]
  rfl

/-- A turn that does not pause before its node is a walk, and then a pause or
a new place for the loop. -/
theorem turn_walking {L : Loop G.schema} {node : GraphNode}
    (hn : G.nodes.get? L.current.text = some node)
    (hb : (node.interruptBefore && !L.bypass) = false) :
    turn G env L = (do
      let (ctx, r) ← walk G env L node
      if node.interruptAfter then
        emit (.interruptRequested L.current.text .after)
        pure (.paused (pauseAfter L ctx r))
      else
        pure (.next (Loop.after ctx r))) := by
  unfold turn walk
  simp only [hn, hb, Bool.false_eq_true, if_false, bind_assoc, pure_bind]
  rfl

/-- The turn at `L` runs its node, which completes with `state`. -/
structure Completes (L : Loop G.schema) (node : GraphNode) (state : WorkflowState G.schema)
    (ctx : Ctx) : Prop where
  found : G.nodes.get? L.current.text = some node
  starts : (node.interruptBefore && !L.bypass) = false
  completed : (completeNode L.current.text node L.state L.enter).result = .ok (state, ctx)

/-- Where a completed node leaves the run. -/
def leaves {schema : Option Schema} (L : Loop schema) (node : GraphNode) (ctx : Ctx)
    (r : Resolution schema) : TurnEnd schema :=
  if node.interruptAfter then .paused (pauseAfter L ctx r) else .next (Loop.after ctx r)

theorem turn_of_completes {L : Loop G.schema} {node : GraphNode} {state : WorkflowState G.schema}
    {ctx : Ctx} (h : Completes L node state ctx) :
    (turn G env L).result = (resolveNext G env ctx L.current.text state.data state).result.map
      (leaves L node ctx) := by
  have hwalk : (walk G env L node).result =
      (resolveNext G env ctx L.current.text state.data state).result.map (fun r => (ctx, r)) := by
    unfold walk
    rw [Logged.bind_ok _ h.completed]
    rcases hr : (resolveNext G env ctx L.current.text state.data state).result with error | r
    · simp only [Logged.bind_error _ hr]
      rfl
    · simp only [Logged.bind_ok _ hr]
      rfl
  rw [turn_walking h.found h.starts]
  rcases hr : (resolveNext G env ctx L.current.text state.data state).result with error | r
  · rw [hr] at hwalk
    rw [Logged.bind_error _ hwalk]
    rfl
  · rw [hr] at hwalk
    rw [Logged.bind_ok _ hwalk]
    simp only [leaves, Except.map]
    split <;> rfl

theorem bus_of_completes {L : Loop G.schema} {node : GraphNode} {state : WorkflowState G.schema}
    {ctx : Ctx} (h : Completes L node state ctx) : ctx.hasBus = L.ctx.hasBus := by
  have hcompleted := h.completed
  rcases hc : completeNode L.current.text node L.state L.enter with ⟨log, result⟩
  rw [hc] at hcompleted
  simp only at hcompleted
  subst hcompleted
  obtain ⟨update, mode, nodeLog, hdone⟩ := completeNode_ok hc
  rw [hdone.left]
  rfl

theorem walk_ok {L : Loop G.schema} {node : GraphNode} {log : List Note} {ctx : Ctx}
    {r : Resolution G.schema} (h : walk G env L node = ⟨log, .ok (ctx, r)⟩) :
    ∃ state l m, completeNode L.current.text node L.state L.enter = ⟨l, .ok (state, ctx)⟩ ∧
      resolveNext G env ctx L.current.text state.data state = ⟨m, .ok r⟩ ∧ log = l ++ m := by
  obtain ⟨l, ⟨state, ctx'⟩, m, hc, hrest, rfl⟩ := Logged.of_bind_ok h
  obtain ⟨m', r', n, hr, hp, rfl⟩ := Logged.of_bind_ok hrest
  cases hp
  exact ⟨state, l, m', hc, hr, by rw [List.append_nil]⟩

/-- The context after a walk. -/
theorem walk_left {L : Loop G.schema} {node : GraphNode} {log : List Note} {ctx : Ctx}
    {r : Resolution G.schema} (h : walk G env L node = ⟨log, .ok (ctx, r)⟩) :
    ∃ mode, ctx = { L.enter with
      restrictedMode := mode
      nodeExecutionOrder := L.ctx.nodeExecutionOrder ++ [L.current.text] } := by
  obtain ⟨state, l, m, hc, -, -⟩ := walk_ok h
  obtain ⟨update, mode, nodeLog, hdone⟩ := completeNode_ok hc
  exact ⟨mode, hdone.left⟩

/-- A turn that goes on walked through a node that does not pause. -/
theorem turn_next {L L' : Loop G.schema} {log : List Note}
    (h : turn G env L = ⟨log, .ok (.next L')⟩) :
    ∃ node ctx r, G.nodes.get? L.current.text = some node ∧
      (node.interruptBefore && !L.bypass) = false ∧ node.interruptAfter = false ∧
      walk G env L node = ⟨log, .ok (ctx, r)⟩ ∧ L' = Loop.after ctx r := by
  rcases hn : G.nodes.get? L.current.text with _ | node
  · rw [turn_unknown hn] at h
    cases h
  rcases hb : (node.interruptBefore && !L.bypass) with _ | _
  · rw [turn_walking hn hb] at h
    obtain ⟨l, ⟨ctx, r⟩, m, hw, hrest, rfl⟩ := Logged.of_bind_ok h
    rcases ha : node.interruptAfter with _ | _
    · simp only [ha, Bool.false_eq_true, if_false] at hrest
      cases hrest
      exact ⟨node, ctx, r, rfl, hb, ha, by rw [hw, List.append_nil], rfl⟩
    · simp only [ha, if_true] at hrest
      cases hrest
  · rw [turn_pausing hn hb] at h
    cases h

/-- A turn that pauses does so before its node, or walked and does so after. -/
theorem turn_paused {L : Loop G.schema} {log : List Note} {p : Pause}
    (h : turn G env L = ⟨log, .ok (.paused p)⟩) :
    ∃ node, G.nodes.get? L.current.text = some node ∧
      (((node.interruptBefore && !L.bypass) = true ∧ p = pauseBefore L ∧
          log = [.emit ⟨.interruptRequested L.current.text .before, true⟩]) ∨
        ((node.interruptBefore && !L.bypass) = false ∧ node.interruptAfter = true ∧
          ∃ ctx r l, walk G env L node = ⟨l, .ok (ctx, r)⟩ ∧ p = pauseAfter L ctx r ∧
            log = l ++ [.emit ⟨.interruptRequested L.current.text .after, true⟩])) := by
  rcases hn : G.nodes.get? L.current.text with _ | node
  · rw [turn_unknown hn] at h
    cases h
  refine ⟨node, rfl, ?_⟩
  rcases hb : (node.interruptBefore && !L.bypass) with _ | _
  · rw [turn_walking hn hb] at h
    obtain ⟨l, ⟨ctx, r⟩, m, hw, hrest, rfl⟩ := Logged.of_bind_ok h
    rcases ha : node.interruptAfter with _ | _
    · simp only [ha, Bool.false_eq_true, if_false] at hrest
      cases hrest
    · simp only [ha, if_true] at hrest
      cases hrest
      exact Or.inr ⟨rfl, rfl, ctx, r, l, hw, rfl, rfl⟩
  · rw [turn_pausing hn hb] at h
    cases h
    exact Or.inl ⟨rfl, rfl, rfl⟩

/-- A turn that fails looked for a node that is not there, or failed on its
walk. -/
theorem turn_failed {L : Loop G.schema} {log : List Note} {e : EngineError}
    (h : turn G env L = ⟨log, .error e⟩) :
    (G.nodes.get? L.current.text = none ∧ log = [] ∧
        e = .nodeNotFound L.current.text G.nodes.keys) ∨
      ∃ node, G.nodes.get? L.current.text = some node ∧
        (node.interruptBefore && !L.bypass) = false ∧ walk G env L node = ⟨log, .error e⟩ := by
  rcases hn : G.nodes.get? L.current.text with _ | node
  · rw [turn_unknown hn] at h
    cases h
    exact Or.inl ⟨rfl, rfl, rfl⟩
  rcases hb : (node.interruptBefore && !L.bypass) with _ | _
  · rw [turn_walking hn hb] at h
    rcases Logged.of_bind_error h with hw | ⟨l, ⟨ctx, r⟩, m, hw, hrest, rfl⟩
    · exact Or.inr ⟨node, rfl, hb, hw⟩
    · simp only at hrest
      split at hrest <;> cases hrest
  · rw [turn_pausing hn hb] at h
    cases h

/-- A turn that goes on counts itself. -/
theorem turnNumber_next {L L' : Loop G.schema} {log : List Note}
    (h : turn G env L = ⟨log, .ok (.next L')⟩) :
    L'.ctx.turnNumber = L.ctx.turnNumber + 1 := by
  obtain ⟨node, ctx, r, -, -, -, hw, rfl⟩ := turn_next h
  obtain ⟨state, l, m, hc, -, -⟩ := walk_ok hw
  obtain ⟨update, mode, nodeLog, hdone⟩ := completeNode_ok hc
  show ctx.turnNumber = _
  rw [hdone.left]
  rfl

/-! ## A run of the loop is a path of turns -/

/-- The loop as a machine. A step is a turn that goes on, and its label is
what the turn wrote. -/
def loopMachine (G : CompiledGraph) (env : Env) (L₀ : Loop G.schema) :
    Machine (Loop G.schema) (List Note) where
  init L := L = L₀
  step L log L' := L.current ≠ .END ∧ L.ctx.turnNumber < G.maxTurns ∧
    turn G env L = ⟨log, .ok (.next L')⟩

/-- How a run of the loop ends at the place `L`, and what it writes there. -/
inductive Last (G : CompiledGraph) (env : Env) (L : Loop G.schema) : List Note → Ending → Prop
  | done (h : L.current = .END) : Last G env L [] (.completed L.state.data)
  | outOfTurns (h : L.current ≠ .END) (ht : G.maxTurns ≤ L.ctx.turnNumber) :
    Last G env L [] (.failed L.ctx.nodeId (.maxIterations G.maxTurns L.current))
  | failed {log : List Note} {e : EngineError} (h : L.current ≠ .END)
    (ht : L.ctx.turnNumber < G.maxTurns) (hturn : turn G env L = ⟨log, .error e⟩) :
    Last G env L log (.failed L.current.text e)
  | paused {log : List Note} {p : Pause} (h : L.current ≠ .END)
    (ht : L.ctx.turnNumber < G.maxTurns) (hturn : turn G env L = ⟨log, .ok (.paused p)⟩) :
    Last G env L log (.interrupted p)

theorem runLoop_last {L : Loop G.schema} {log : List Note} {ending : Ending}
    (h : Last G env L log ending) : runLoop G env L = ⟨log, ending⟩ := by
  unfold runLoop
  cases h with
  | done h =>
    rcases G.maxTurns - L.ctx.turnNumber with _ | left
    all_goals
      unfold loopFrom
      simp only [h, if_true]
  | outOfTurns h ht =>
    rw [Nat.sub_eq_zero_of_le ht]
    unfold loopFrom
    simp only [h, if_false]
  | failed h ht hturn =>
    obtain ⟨left, hleft⟩ : ∃ left, G.maxTurns - L.ctx.turnNumber = left + 1 :=
      ⟨G.maxTurns - L.ctx.turnNumber - 1, by omega⟩
    rw [hleft]
    unfold loopFrom
    simp only [h, if_false, hturn]
  | paused h ht hturn =>
    obtain ⟨left, hleft⟩ : ∃ left, G.maxTurns - L.ctx.turnNumber = left + 1 :=
      ⟨G.maxTurns - L.ctx.turnNumber - 1, by omega⟩
    rw [hleft]
    unfold loopFrom
    simp only [h, if_false, hturn]

theorem runLoop_next {L L' L₀ : Loop G.schema} {log : List Note}
    (h : (loopMachine G env L₀).step L log L') :
    runLoop G env L = ⟨log ++ (runLoop G env L').log, (runLoop G env L').ending⟩ := by
  obtain ⟨hend, hlt, hturn⟩ := h
  have hnum := turnNumber_next hturn
  have hleft : G.maxTurns - L.ctx.turnNumber = (G.maxTurns - L'.ctx.turnNumber) + 1 := by omega
  unfold runLoop
  rw [hleft]
  conv_lhs => unfold loopFrom
  simp only [hend, if_false, hturn]

/-- What a path of turns wrote stands before what the loop writes from its end. -/
theorem runLoop_run {L L' L₀ : Loop G.schema} {logs : List (List Note)}
    (h : Run (loopMachine G env L₀) L logs L') :
    runLoop G env L = ⟨logs.flatten ++ (runLoop G env L').log, (runLoop G env L').ending⟩ := by
  induction h with
  | stay L => rfl
  | step first _ ih => rw [runLoop_next first, ih, List.flatten_cons, List.append_assoc]

/-- Every run of the loop is a path of turns with a last one. -/
theorem exists_path (env : Env) (L L₀ : Loop G.schema) :
    ∃ logs L' log ending, Run (loopMachine G env L₀) L logs L' ∧ Last G env L' log ending := by
  by_cases hend : L.current = .END
  · exact ⟨[], L, _, _, .stay L, .done hend⟩
  by_cases hlt : L.ctx.turnNumber < G.maxTurns
  · rcases ht : turn G env L with ⟨log, e | L' | p⟩
    · exact ⟨[], L, _, _, .stay L, .failed hend hlt ht⟩
    · have hnum := turnNumber_next ht
      obtain ⟨logs, L'', last, ending, hrun, hlast⟩ := exists_path env L' L₀
      exact ⟨log :: logs, L'', last, ending, .step ⟨hend, hlt, ht⟩ hrun, hlast⟩
    · exact ⟨[], L, _, _, .stay L, .paused hend hlt ht⟩
  · exact ⟨[], L, _, _, .stay L, .outOfTurns hend (by omega)⟩
termination_by G.maxTurns - L.ctx.turnNumber

theorem runLoop_path {L L' L₀ : Loop G.schema} {logs : List (List Note)} {log : List Note}
    {ending : Ending} (h : Run (loopMachine G env L₀) L logs L') (hl : Last G env L' log ending) :
    runLoop G env L = ⟨logs.flatten ++ log, ending⟩ := by
  rw [runLoop_run h, runLoop_last hl]

/-! ## What the loop writes -/

/-- The events of the loop itself, and of what runs in its nodes. -/
def LoopBody : EventBody → Prop
  | .nodeStarted .. | .nodeCompleted .. | .interruptRequested .. => True
  | body => QuietBody body

def LoopNote : Note → Prop
  | .emit e => LoopBody e.body
  | _ => True

theorem loopNote_of_quiet {n : Note} (h : Quiet n) : LoopNote n := by
  cases n with
  | emit e =>
    obtain ⟨body, numbered⟩ := e
    cases body <;> first | exact h | trivial
  | _ => trivial

theorem meets_completeNode {nodeId : String} {node : GraphNode} {state : WorkflowState schema}
    {ctx : Ctx} : Logged.Meets LoopNote (fun _ => True) (fun _ => True)
      (completeNode nodeId node state ctx) := by
  unfold completeNode emit
  refine Logged.meets_bind (Logged.meets_note trivial) (fun _ _ _ => ?_)
  refine Logged.meets_bind (quiet_executeNode.weaken (fun _ hn => loopNote_of_quiet hn)
    (fun _ h => h) (fun _ _ => trivial)) (fun _ _ _ => ?_)
  refine Logged.meets_bind (Logged.meets_ofExcept (fun _ _ => trivial) (fun _ _ => trivial))
    (fun _ _ _ => ?_)
  refine Logged.meets_bind (Logged.meets_note trivial) (fun _ _ _ => ?_)
  refine Logged.meets_bind (Logged.meets_note trivial) (fun _ _ _ => ?_)
  exact Logged.meets_pure trivial

theorem meets_walk {L : Loop G.schema} {node : GraphNode} :
    Logged.Meets LoopNote (fun _ => True) (fun _ => True) (walk G env L node) := by
  unfold walk
  refine Logged.meets_bind meets_completeNode ?_
  rintro ⟨state, ctx⟩ - -
  have hway : Logged.Meets LoopNote (fun _ => True) (fun _ => True)
      (resolveNext G env ctx L.current.text state.data state) :=
    ⟨fun n hn => loopNote_of_quiet (quiet_resolveNext n hn), fun _ _ => trivial,
      fun _ _ => trivial⟩
  exact Logged.meets_bind hway (fun _ _ _ => Logged.meets_pure trivial)

theorem meets_turn (env : Env) (L : Loop G.schema) :
    Logged.Meets LoopNote (fun _ => True) (fun _ => True) (turn G env L) := by
  rcases hn : G.nodes.get? L.current.text with _ | node
  · rw [turn_unknown hn]
    exact Logged.meets_fail trivial
  rcases hb : (node.interruptBefore && !L.bypass) with _ | _
  · rw [turn_walking hn hb]
    refine Logged.meets_bind meets_walk ?_
    rintro ⟨ctx, r⟩ - -
    dsimp only
    split
    · refine Logged.meets_bind (Logged.meets_note trivial) (fun _ _ _ => ?_)
      exact Logged.meets_pure trivial
    · exact Logged.meets_pure trivial
  · rw [turn_pausing hn hb]
    refine ⟨?_, fun _ _ => trivial, fun _ _ => trivial⟩
    intro n hn
    rw [List.mem_singleton.mp hn]
    trivial

theorem loopNotes_runLoop (env : Env) (L : Loop G.schema) :
    ∀ n ∈ (runLoop G env L).log, LoopNote n := by
  have hfrom : ∀ left (L : Loop G.schema), ∀ n ∈ (loopFrom G env left L).log, LoopNote n := by
    intro left
    induction left with
    | zero =>
      intro L n hn
      unfold loopFrom at hn
      split at hn <;> cases hn
    | succ left ih =>
      intro L n hn
      have hturn := (meets_turn env L).notes
      unfold loopFrom at hn
      split at hn
      · cases hn
      · rcases hresult : (turn G env L).result with e | L' | p
        all_goals
          simp only [hresult] at hn
        · exact hturn n hn
        · rcases List.mem_append.mp hn with hn | hn
          · exact hturn n hn
          · exact ih L' n hn
        · exact hturn n hn
  exact hfrom _ L

end orchestra.turns
