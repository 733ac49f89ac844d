-- A subgraph over the state class of its parent: the whole state in which it ends
-- comes back as an update, and goes through the reducers of the parent once more. That
-- leaves what its nodes have made of the state only where the reducers take it in.
import Orchestra.Merging
import Orchestra.Subgraphs

open dicts logged orchestra.state orchestra.edges orchestra.nodes orchestra.compiled
open orchestra.turns orchestra.runs orchestra.subgraphs orchestra.merging

namespace orchestra.inlining

variable {schema : Option Schema}

/-! ## The state after a subgraph -/

/-- The state of the parent after the subgraph node, run where the loop of the parent
stands. -/
def afterSubgraph (G : CompiledGraph) (env : Env) (runId : Moment → String)
    (interruptBefore interruptAfter : Bool) (L : Loop G.schema) : Option PyDict :=
  (completeNode L.current.text
    (.subgraph (subgraphNode G env runId interruptBefore interruptAfter)) L.state
    L.enter).result.toOption.map (fun x => x.1.data)

/-- The state of the parent after the nodes of the subgraph, run at that point on its
own state and in its own context. The subgraph has its turns for that. -/
def afterInlining (G : CompiledGraph) (env : Env) (L : Loop G.schema) : Option PyDict :=
  stateOf? (loopFrom G env G.maxTurns ⟨.node G.entryPoint, L.state, L.enter, false⟩).ending

/-- From this state a subgraph does what its inlining does: for every place of a loop
of any parent and every subgraph that does not pause and does not tell the context of
the parent from a new one. -/
def Inlines (state : WorkflowState schema) : Prop :=
  ∀ (G : CompiledGraph) (env env' : Env) (runId : Moment → String)
    (interruptBefore interruptAfter : Bool) (L : Loop schema), L.state = state →
    Uninterrupted (withClass G schema) →
    Indistinct (withClass G schema) (nestedCtx (runId L.enter.moment)) L.enter →
    afterSubgraph (withClass G schema) env runId interruptBefore interruptAfter L =
      afterInlining (withClass G schema) env' L

/-! ## What updates make of a state -/

inductive Grows (state : WorkflowState schema) : WorkflowState schema → Prop
  | same : Grows state state
  | update {s t : WorkflowState schema} {update : PyDict} (h : Grows state s)
    (applied : s.applyAny update = .ok t) : Grows state t

/-- Whatever updates make of the state, the state takes it in as one update. -/
def Absorbs (state : WorkflowState schema) : Prop :=
  ∀ t, Grows state t → state.applyAny t.data = .ok t

theorem Grows.trans {s t u : WorkflowState schema} (h : Grows s t) (h' : Grows t u) :
    Grows s u := by
  induction h' with
  | same => exact h
  | update _ applied ih => exact .update ih applied

theorem data_apply {S : Schema} (state : WorkflowState (some S)) (update : PyDict) :
    (state.apply update).map (·.data) = applyStateUpdate S state.data update := by
  unfold WorkflowState.apply
  simp only
  split
  · rename_i s hs
    exact hs.symm
  · rename_i e he
    exact he.symm

theorem apply_of_ok {S : Schema} {state : WorkflowState (some S)} {update new : PyDict}
    (h : applyStateUpdate S state.data update = .ok new) :
    ∃ t, state.apply update = .ok t ∧ t.data = new := by
  have hdata := data_apply state update
  rw [h] at hdata
  rcases ht : state.apply update with e | t
  · rw [ht] at hdata
    cases hdata
  · rw [ht] at hdata
    exact ⟨t, rfl, Except.ok.inj hdata⟩

theorem apply_empty {state t : WorkflowState schema} {update : PyDict}
    (hempty : update.entries = []) (h : state.apply update = .ok t) : t = state := by
  obtain rfl : update = .empty := Dict.ext_entries hempty
  apply WorkflowState.ext_data
  cases schema with
  | none =>
    cases h
    rfl
  | some S =>
    have hdata := data_apply state .empty
    have hvalid := state.settled S rfl
    have hsame : applyStateUpdate S state.data .empty = .ok state.data := by
      unfold applyStateUpdate validateState
      simp only [Dict.empty, updateFields, hvalid]
    rw [h, hsame] at hdata
    exact Except.ok.inj hdata

theorem grows_apply {state t : WorkflowState schema} {update : PyDict}
    (h : state.apply update = .ok t) : Grows state t := by
  by_cases hempty : update.entries = []
  · rw [apply_empty hempty h]
    exact .same
  · have hnot : update.entries.isEmpty = false := by simpa using hempty
    have happly : state.applyAny update = .ok t := by
      unfold WorkflowState.applyAny
      rw [hnot]
      exact h
    exact .update .same happly

theorem grows_merge {state t : WorkflowState schema} {updates : List PyDict}
    (h : state.merge updates = .ok t) : Grows state t := by
  cases schema with
  | none =>
    have hdata : updates.foldl (fun d update => d.update update) state.data = t.data := by
      cases h
      rfl
    clear h
    induction updates generalizing state with
    | nil =>
      rw [WorkflowState.ext_data (hdata : state.data = t.data)]
      exact .same
    | cons update rest ih =>
      have hfirst : state.apply update = .ok ⟨state.data.update update, by simp⟩ := rfl
      exact (grows_apply hfirst).trans (ih hdata)
  | some S =>
    have hdata : mergeParallelUpdates S state.data updates = .ok t.data := by
      rw [← data_merge, h]
      rfl
    clear h
    induction updates generalizing state with
    | nil =>
      rw [WorkflowState.ext_data (Except.ok.inj hdata : state.data = t.data)]
      exact .same
    | cons update rest ih =>
      unfold mergeParallelUpdates at hdata
      rcases hnew : applyStateUpdate S state.data update with e | new
      · rw [hnew] at hdata
        cases hdata
      · obtain ⟨s, hs, rfl⟩ := apply_of_ok hnew
        rw [hnew] at hdata
        exact (grows_apply hs).trans (ih hdata)

section loops

variable {G : CompiledGraph} {env : Env}

theorem grows_fanOut {ctx : Ctx} {f : List EngineError → EngineError} {branches : List Branch}
    {state t : WorkflowState G.schema} {log : List Note}
    (h : fanOut env ctx f branches state = ⟨log, .ok t⟩) : Grows state t := by
  have hresult := congrArg Logged.result h
  simp only [fanOut, Logged.notes] at hresult
  split at hresult
  · cases hresult
  · exact grows_merge hresult

theorem grows_handoff {ctx : Ctx} {e : HandoffEdge} {stateDict : PyDict}
    {state t : WorkflowState schema} {log : List Note}
    (h : handoff ctx e stateDict state = ⟨log, .ok t⟩) : Grows state t := by
  unfold handoff at h
  obtain ⟨l, history, m, -, hrest, -⟩ := Logged.of_bind_ok h
  split at hrest
  · obtain ⟨l', _, m', -, hrest, -⟩ := Logged.of_bind_ok hrest
    obtain ⟨l'', _, m'', -, hrest, -⟩ := Logged.of_bind_ok hrest
    exact grows_apply (congrArg Logged.result hrest)
  · cases hrest

/-- The way out of a node makes of the state what updates make of it. -/
theorem grows_resolveNext {ctx : Ctx} {nodeId : String} {stateDict : PyDict}
    {state : WorkflowState G.schema} {log : List Note} {r : Resolution G.schema}
    (h : resolveNext G env ctx nodeId stateDict state = ⟨log, .ok r⟩) : Grows state r.state := by
  unfold resolveNext at h
  split at h
  · cases h
    exact .same
  · obtain ⟨l, ⟨result, counters⟩, m, -, hrest, -⟩ := Logged.of_bind_ok h
    cases result with
    | next target =>
      cases hrest
      exact .same
    | sends sends =>
      obtain ⟨l', s, m', hsends, hdone, -⟩ := Logged.of_bind_ok hrest
      cases hdone
      unfold executeSends at hsends
      obtain ⟨l'', targets, m'', -, hfan, -⟩ := Logged.of_bind_ok hsends
      exact grows_fanOut hfan
  · obtain ⟨l, s, m, hpar, hdone, -⟩ := Logged.of_bind_ok h
    cases hdone
    unfold executeParallel at hpar
    obtain ⟨l', targets, m', -, hfan, -⟩ := Logged.of_bind_ok hpar
    exact grows_fanOut hfan
  · obtain ⟨l, picked, m, -, hrest, -⟩ := Logged.of_bind_ok h
    cases picked with
    | none =>
      cases hrest
      exact .same
    | some e =>
      obtain ⟨l', s, m', hhandoff, hdone, -⟩ := Logged.of_bind_ok hrest
      cases hdone
      exact grows_handoff hhandoff

theorem grows_turn {L L' : Loop G.schema} {log : List Note}
    (h : turn G env L = ⟨log, .ok (.next L')⟩) : Grows L.state L'.state := by
  obtain ⟨node, ctx, r, -, -, -, hwalk, rfl⟩ := turn_next h
  obtain ⟨state, l, m, hcomplete, hresolve, -⟩ := walk_ok hwalk
  obtain ⟨update, mode, nodeLog, hdone⟩ := completeNode_ok hcomplete
  exact (Grows.update .same hdone.applied).trans (grows_resolveNext hresolve)

/-- So does the whole loop. -/
theorem grows_loop {left : Nat} {L : Loop G.schema} {d : PyDict}
    (h : stateOf? (loopFrom G env left L).ending = some d) : ∃ t, Grows L.state t ∧ t.data = d := by
  induction left generalizing L with
  | zero =>
    unfold loopFrom at h
    split at h
    · exact ⟨L.state, .same, Option.some.inj h⟩
    · cases h
  | succ left ih =>
    unfold loopFrom at h
    split at h
    · exact ⟨L.state, .same, Option.some.inj h⟩
    · rcases ht : turn G env L with ⟨log, e | L' | p⟩
      · rw [ht] at h
        cases h
      · rw [ht] at h
        obtain ⟨t, hgrows, hdata⟩ := ih h
        exact ⟨t, (grows_turn ht).trans hgrows, hdata⟩
      · rw [ht] at h
        cases h

end loops

/-! ## A chain of nodes -/

/-- The id of the node in place `i`. -/
def stepId (i : Nat) : String := String.ofList (List.replicate i 'n')

theorem stepId_inj {i j : Nat} (h : stepId i = stepId j) : i = j := by
  have hlist := congrArg String.toList h
  simpa [stepId] using congrArg List.length hlist

/-- The node in place `i`, which makes the update in that place. -/
def stepNode (updates : List PyDict) (i : Nat) : GraphNode :=
  .function ⟨fun _ _ => .ok (updates.getD i .empty), stepId i, false, false⟩

/-- Where the chain goes on. -/
def place (updates : List PyDict) (i : Nat) : Target :=
  if i < updates.length then .node (stepId i) else .END

/-- The graph that makes these updates, one node after the other. -/
def chain (updates : List PyDict) : CompiledGraph where
  nodes :=
    { entries := (List.range updates.length).map (fun i => (stepId i, stepNode updates i))
      nodup := by
        rw [List.map_map]
        refine List.Nodup.map ?_ List.nodup_range
        intro i j h
        exact stepId_inj h }
  edges := (List.range updates.length).map (fun i => .plain (stepId i) (place updates (i + 1)))
  entryPoint := stepId 0
  schema := none
  maxTurns := updates.length
  name := "chain"
  handoffEdges := []

section chains

variable {updates : List PyDict}

theorem chain_node {i : Nat} (hi : i < updates.length) :
    (chain updates).nodes.get? (stepId i) = some (stepNode updates i) := by
  rw [← Dict.mem_entries_iff]
  exact List.mem_map.mpr ⟨i, List.mem_range.mpr hi, rfl⟩

theorem of_chain_node {nodeId : String} {node : GraphNode}
    (h : (chain updates).nodes.get? nodeId = some node) : ∃ i, node = stepNode updates i := by
  rw [← Dict.mem_entries_iff] at h
  obtain ⟨i, -, hi⟩ := List.mem_map.mp h
  cases hi
  exact ⟨i, rfl⟩

theorem chain_edges {i : Nat} (hi : i < updates.length) :
    (chain updates).edgesFrom (stepId i) = [.plain (stepId i) (place updates (i + 1))] := by
  have hsame : ∀ j, (GraphEdge.plain (stepId j) (place updates (j + 1))).source = stepId i ↔
      j = i := by
    intro j
    constructor
    · exact fun h => stepId_inj h
    · rintro rfl
      rfl
  unfold CompiledGraph.edgesFrom chain
  rw [List.filter_map]
  have hfilter : (List.range updates.length).filter
      ((fun e : GraphEdge => decide (e.source = stepId i)) ∘
        fun j => .plain (stepId j) (place updates (j + 1))) = [i] := by
    have hcongr : ((fun e : GraphEdge => decide (e.source = stepId i)) ∘
        fun j => .plain (stepId j) (place updates (j + 1))) = fun j => j == i := by
      funext j
      simp only [Function.comp, hsame]
      rfl
    have hcount : (List.range updates.length).count i = 1 :=
      List.count_eq_one_of_mem List.nodup_range (List.mem_range.mpr hi)
    rw [hcongr, List.filter_beq, hcount]
    rfl
  rw [hfilter]
  rfl

theorem chain_uninterrupted (schema : Option Schema) :
    Uninterrupted (withClass (chain updates) schema) := by
  intro nodeId node hn
  obtain ⟨i, rfl⟩ := of_chain_node hn
  exact ⟨rfl, rfl⟩

/-- The chain answers alike in any two contexts. -/
theorem chain_indistinct (schema : Option Schema) {c d : Ctx} (h : c.hasBus = d.hasBus) :
    Indistinct (withClass (chain updates) schema) c d := by
  refine ⟨fun c d => c.hasBus = d.hasBus, ⟨?_, ?_, ?_, ?_, ?_⟩, h⟩
  · exact fun _ _ hbus => hbus
  · exact fun _ _ _ _ _ _ _ hbus => hbus
  · exact fun _ _ _ _ hbus => hbus
  · intro nodeId node hn c d state state' hbus _
    obtain ⟨i, rfl⟩ := of_chain_node hn
    exact ⟨rfl, hbus⟩
  · intro e he
    obtain ⟨i, -, hi⟩ := List.mem_map.mp he
    cases hi

theorem completeNode_chain {i : Nat} (ctx : Ctx) {s t : WorkflowState schema}
    (h : s.applyAny (updates.getD i .empty) = .ok t) :
    ∃ log, completeNode (stepId i) (stepNode updates i) s ctx =
      ⟨log, .ok (t, ranIn ctx (stepId i) ctx.restrictedMode)⟩ := by
  have hexec : executeNode schema (stepId i) (stepNode updates i) s.data ctx =
      ⟨[.ran (stepId i)], .ok (updates.getD i .empty, ctx.restrictedMode)⟩ := rfl
  unfold completeNode emit
  rw [Logged.note_bind, hexec, Logged.bind_ok _ rfl]
  simp only [h]
  exact ⟨_, rfl⟩

/-- A turn of the chain makes its update. -/
theorem turn_chain (env : Env) {i : Nat} (hi : i < updates.length) (ctx : Ctx) (bypass : Bool)
    {s t : WorkflowState schema} (h : s.applyAny (updates.getD i .empty) = .ok t) :
    ∃ log ctx', turn (withClass (chain updates) schema) env ⟨.node (stepId i), s, ctx, bypass⟩ =
      ⟨log, .ok (.next ⟨place updates (i + 1), t, ctx', false⟩)⟩ := by
  have hnode : (withClass (chain updates) schema).nodes.get? (stepId i) =
      some (stepNode updates i) := chain_node hi
  have hedges : (withClass (chain updates) schema).edgesFrom (stepId i) =
      [.plain (stepId i) (place updates (i + 1))] := chain_edges hi
  obtain ⟨log, hcomplete⟩ :=
    completeNode_chain (Loop.enter ⟨.node (stepId i), s, ctx, bypass⟩) h
  rw [turn_uninterrupted (chain_uninterrupted schema)]
  simp only [Target.text, hnode]
  unfold walk
  simp only [Target.text]
  rw [hcomplete]
  unfold resolveNext
  rw [hedges]
  exact ⟨_, _, rfl⟩

/-- The chain comes to its end with what all its updates make of the state. -/
theorem loop_chain (env : Env) {left i : Nat} (hi : i + left = updates.length) (ctx : Ctx)
    (bypass : Bool) {s t : WorkflowState schema}
    (h : (updates.drop i).foldlM (fun s update => s.applyAny update) s = .ok t) :
    stateOf? (loopFrom (withClass (chain updates) schema) env left
      ⟨place updates i, s, ctx, bypass⟩).ending = some t.data := by
  induction left generalizing i ctx bypass s with
  | zero =>
    have hend : place updates i = .END := by
      unfold place
      rw [if_neg (by omega)]
    rw [List.drop_eq_nil_of_le (by omega)] at h
    cases h
    unfold loopFrom
    simp only [hend, if_true]
    rfl
  | succ left ih =>
    have hlt : i < updates.length := by omega
    have hnode : place updates i = .node (stepId i) := by
      unfold place
      rw [if_pos hlt]
    rw [List.drop_eq_getElem_cons hlt, List.foldlM_cons] at h
    rcases hs : s.applyAny updates[i] with e | s'
    · rw [hs] at h
      cases h
    · rw [hs] at h
      have hupdate : s.applyAny (updates.getD i .empty) = .ok s' := by
        rw [List.getD_eq_getElem?_getD, List.getElem?_eq_getElem hlt]
        exact hs
      obtain ⟨log, ctx', hturn⟩ := turn_chain env hlt ctx bypass hupdate
      unfold loopFrom
      rw [hnode]
      simp only [reduceCtorEq, if_false, hturn]
      exact ih (by omega) ctx' false h

/-- What updates make of a state is what a list of them makes of it. -/
theorem exists_updates {state t : WorkflowState schema} (h : Grows state t) :
    ∃ updates : List PyDict, updates ≠ [] ∧
      updates.foldlM (fun s update => s.applyAny update) state = Except.ok t := by
  induction h with
  | same => exact ⟨[.empty], by simp, rfl⟩
  | @update s t update _ applied ih =>
    obtain ⟨updates, -, hfold⟩ := ih
    refine ⟨updates ++ [update], by simp, ?_⟩
    rw [List.foldlM_append, hfold]
    simp only [List.foldlM_cons, List.foldlM_nil]
    change (s.applyAny update >>= pure) = _
    rw [applied]
    rfl

end chains

/-! ## A subgraph and its inlining -/

section inlining

variable {G : CompiledGraph} {env env' : Env} {runId : Moment → String}
  {interruptBefore interruptAfter : Bool}

/-- The subgraph node applies the end of the nested run as an update. -/
theorem afterSubgraph_eq (L : Loop G.schema) :
    afterSubgraph G env runId interruptBefore interruptAfter L =
      (nestedRun G env (runId L.enter.moment) L.state.data).toOption.bind
        (fun d => (L.state.applyAny d).toOption.map (·.data)) := by
  unfold afterSubgraph completeNode emit
  rw [Logged.note_bind]
  rcases hrun : nestedRun G env (runId L.enter.moment) L.state.data with e | d
  · have hcall : SubgraphNode.call (subgraphNode G env runId interruptBefore interruptAfter)
        L.state.data L.enter.moment = .error e := by
      simp only [SubgraphNode.call, subgraphNode, Option.elim, hrun]
    have hexec : (executeNode G.schema L.current.text
        (.subgraph (subgraphNode G env runId interruptBefore interruptAfter)) L.state.data
        L.enter).result = .error (wrapError L.current.text
          (.subgraph (subgraphNode G env runId interruptBefore interruptAfter)) (.raised e)) := by
      unfold executeNode
      simp only [hcall]
      rfl
    rw [Logged.bind_error _ hexec]
    rfl
  · have hcall : SubgraphNode.call (subgraphNode G env runId interruptBefore interruptAfter)
        L.state.data L.enter.moment = .ok d := by
      simp only [SubgraphNode.call, subgraphNode, Option.elim, hrun]
    have hexec : (executeNode G.schema L.current.text
        (.subgraph (subgraphNode G env runId interruptBefore interruptAfter)) L.state.data
        L.enter).result = .ok (d, L.enter.restrictedMode) := by
      unfold executeNode
      simp only [hcall]
      rfl
    rw [Logged.bind_ok _ hexec]
    change _ = (L.state.applyAny d).toOption.map (·.data)
    rcases happly : L.state.applyAny d with e | t
    · simp only [happly]
      rfl
    · simp only [happly]
      rfl

/-- Whatever the subgraph is, its node leaves what its inlining leaves, exactly when the
state absorbs whatever updates make of it. -/
theorem subgraph_is_its_inlining_iff (state : WorkflowState schema) :
    Inlines state ↔ Absorbs state := by
  constructor
  · intro h t hgrows
    obtain ⟨updates, hne, hfold⟩ := exists_updates hgrows
    have hpos : 0 < updates.length := List.length_pos_of_ne_nil hne
    have hplace : place updates 0 = .node (stepId 0) := by
      unfold place
      rw [if_pos hpos]
    -- The subgraph that makes these updates one after the other.
    have hlike := h (chain updates) inOrder inOrder (fun _ => "") false false
      ⟨.node "subgraph", state, nestedCtx "", false⟩ rfl (chain_uninterrupted schema)
      (chain_indistinct schema rfl)
    have hinlined : afterInlining (withClass (chain updates) schema) inOrder
        ⟨.node "subgraph", state, nestedCtx "", false⟩ = some t.data := by
      unfold afterInlining
      have hloop := loop_chain inOrder (Nat.zero_add updates.length)
        (Loop.enter ⟨.node "subgraph", state, nestedCtx "", false⟩) false hfold
      rwa [hplace] at hloop
    have hnested : (nestedRun (withClass (chain updates) schema) inOrder "" state.data).toOption =
        some t.data := by
      have hctx : Indistinct (withClass (chain updates) schema) (nestedCtx "")
          (Loop.enter (⟨.node "subgraph", state, nestedCtx "", false⟩ : Loop schema)) :=
        chain_indistinct schema rfl
      rw [← hinlined]
      exact nestedRun_agree (chain_uninterrupted schema) hctx state
    rw [afterSubgraph_eq, hinlined, hnested] at hlike
    rcases happly : state.applyAny t.data with e | t'
    · simp [happly, Except.toOption] at hlike
    · have hdata : t'.data = t.data := by simpa [happly, Except.toOption] using hlike
      rw [WorkflowState.ext_data hdata]
  · intro h G env env' runId interruptBefore interruptAfter L hstate hG hctx
    subst hstate
    have hnested :
        (nestedRun (withClass G schema) env (runId L.enter.moment) L.state.data).toOption =
          afterInlining (withClass G schema) env' L := nestedRun_agree hG hctx L.state
    rw [afterSubgraph_eq, hnested]
    unfold afterInlining
    rcases hend : stateOf? (loopFrom (withClass G schema) env' (withClass G schema).maxTurns
        ⟨.node G.entryPoint, L.state, L.enter, false⟩).ending with _ | d
    · rfl
    · obtain ⟨t, hgrows, rfl⟩ := grows_loop hend
      have habsorbed : L.state.applyAny t.data = .ok t := h t hgrows
      simp [habsorbed, Except.toOption]

end inlining

/-! ## Which states absorb -/

/-- A state without a class does: an update only writes over it. -/
theorem absorbs_none (state : WorkflowState none) : Absorbs state := by
  intro t hgrows
  have hkeys : state.data.keys <+: t.data.keys := by
    induction hgrows with
    | same => exact List.prefix_refl _
    | @update s t update _ applied ih =>
      unfold WorkflowState.applyAny at applied
      split at applied
      · cases applied
        exact ih
      · cases applied
        exact ih.trans (Dict.keys_before_setAll s.data update.entries)
  unfold WorkflowState.applyAny
  split
  · rename_i hempty
    have hnone : t.data.keys = [] := by
      rw [List.isEmpty_iff] at hempty
      unfold Dict.keys
      rw [hempty]
      rfl
    rw [hnone, List.prefix_nil] at hkeys
    have hdata : state.data = t.data := by
      apply Dict.ext_of_keys (hkeys.trans hnone.symm)
      intro k
      rw [(Dict.get?_eq_none_iff _ _).mpr (by simp [hkeys]),
        (Dict.get?_eq_none_iff _ _).mpr (by simp [hnone])]
    rw [WorkflowState.ext_data hdata]
  · have hdata : state.data.update t.data = t.data := Dict.update_of_keys hkeys
    change Except.ok (⟨state.data.update t.data, _⟩ : WorkflowState none) = _
    exact congrArg Except.ok (WorkflowState.ext_data hdata)

/-- What updates with a reducer make of a value. -/
inductive Made (r : Reducer) (x : Value) : Value → Prop
  | same : Made r x x
  | next {y v z : Value} (h : Made r x y) (reduced : r.reduce y v = .ok z) : Made r x z

/-- The reducer takes in at once what it makes of the value step by step. -/
def Takes (r : Reducer) (x : Value) : Prop := ∀ y, Made r x y → r.reduce x y = .ok y

section fields

variable {S : Schema} {state t : WorkflowState (some S)}

/-- Every field may have any value. -/
def Plain (S : Schema) : Prop := ∀ d : PyDict, d.keys = S.fields → S.validate d = .ok d

theorem Plain.typed (h : Plain S) : Typed S (fun _ _ => True) :=
  ⟨fun d hd _ => h d hd, fun _ _ _ _ _ _ _ _ _ => trivial⟩

theorem keys_data (state : WorkflowState (some S)) : state.data.keys = S.fields :=
  S.keys_validate _ _ (state.settled S rfl)

theorem stateOf_data (state : WorkflowState (some S)) :
    StateOf S (fun _ _ => True) state.data :=
  ⟨keys_data state, fun _ _ _ => trivial⟩

/-- An update that goes through has merged every field. -/
theorem of_applyAny (hS : Plain S) {update : PyDict} (h : state.applyAny update = .ok t) :
    (update.entries = [] ∧ t = state) ∨
      (Mergeable S state.data [update] ∧ t.data = merged S state.data [update]) := by
  unfold WorkflowState.applyAny at h
  split at h
  · rename_i hempty
    cases h
    exact Or.inl ⟨List.isEmpty_iff.mp hempty, rfl⟩
  · right
    have hdata := data_apply state update
    rw [h] at hdata
    have hany : WellTyped S (fun _ _ => True) update := fun _ _ _ _ => trivial
    by_cases hmerge : Mergeable S state.data [update]
    · rw [applyStateUpdate_ok hS.typed (stateOf_data state) hany hmerge] at hdata
      exact ⟨hmerge, Except.ok.inj hdata⟩
    · obtain ⟨e, he⟩ := applyStateUpdate_error hmerge
      rw [he] at hdata
      cases hdata

theorem applyAny_of_mergeable (hS : Plain S) {update : PyDict}
    (h : Mergeable S state.data [update]) :
    ∃ t, state.applyAny update = .ok t ∧ t.data = merged S state.data [update] := by
  have hany : WellTyped S (fun _ _ => True) update := fun _ _ _ _ => trivial
  by_cases hempty : update.entries.isEmpty = true
  · refine ⟨state, by simp [WorkflowState.applyAny, hempty], ?_⟩
    apply Dict.ext_of_keys (keys_merged ..).symm
    intro k
    rcases hk : state.data.get? k with _ | x
    · exact (get?_merged_none hk).symm
    · have hnot : ∀ u ∈ [update], k ∉ u.keys := by
        intro u hu
        rw [List.mem_singleton] at hu
        subst hu
        unfold Dict.keys
        rw [List.isEmpty_iff.mp hempty]
        simp
      rw [get?_merged h hk, fieldAfter_untouched hnot]
  · obtain ⟨t, ht, hdata⟩ :=
      apply_of_ok (applyStateUpdate_ok hS.typed (stateOf_data state) hany h)
    exact ⟨t, by simp [WorkflowState.applyAny, hempty, ht], hdata⟩

/-- A field with a reducer has what the reducer makes of it. -/
theorem made_of_grows (hS : Plain S) (h : Grows state t) {key : String} {r : Reducer} {x : Value}
    (hr : S.reducers.get? key = some r) (hx : state.data.get? key = some x) :
    ∃ y, t.data.get? key = some y ∧ Made r x y := by
  induction h with
  | same => exact ⟨x, hx, .same⟩
  | @update s t update _ applied ih =>
    obtain ⟨y, hy, hmade⟩ := ih
    rcases of_applyAny hS applied with ⟨-, rfl⟩ | ⟨hmerge, hdata⟩
    · exact ⟨y, hy, hmade⟩
    · rw [hdata, get?_merged hmerge hy]
      obtain ⟨z, hz⟩ := Option.isSome_iff_exists.mp (hmerge.reduced key y hy)
      refine ⟨z, hz, ?_⟩
      rcases hu : update.get? key with _ | v
      · have hnot : ∀ u ∈ [update], key ∉ u.keys := by
          intro u hu'
          rw [List.mem_singleton] at hu'
          subst hu'
          exact (Dict.get?_eq_none_iff _ _).mp hu
        rw [fieldAfter_untouched hnot] at hz
        cases hz
        exact hmade
      · rw [fieldAfter_one_of_some hu] at hz
        unfold written at hz
        rw [hr] at hz
        rcases hreduce : r.reduce y v with e | w
        · simp [hreduce, Except.toOption] at hz
        · simp only [hreduce, Except.toOption, Option.some.injEq] at hz
          exact .next hmade (hz ▸ hreduce)

/-- A field can become whatever its reducer makes of it. -/
theorem grows_of_made (hS : Plain S) {key : String} {r : Reducer} {x y : Value}
    (hr : S.reducers.get? key = some r) (hx : state.data.get? key = some x) (h : Made r x y) :
    ∃ t, Grows state t ∧ t.data.get? key = some y := by
  induction h with
  | same => exact ⟨state, .same, hx⟩
  | @next y v z _ reduced ih =>
    obtain ⟨s, hgrows, hy⟩ := ih
    let update : PyDict := Dict.empty.set key v
    have hwritten : written S key y v = some z := by
      unfold written
      rw [hr]
      simp [reduced, Except.toOption]
    have hone : update.get? key = some v := Dict.get?_set_self _ _ _
    have hafter : fieldAfter S key y [update] = some z := by
      rw [fieldAfter_one_of_some hone, hwritten]
    have hother : ∀ k, k ≠ key → k ∉ update.keys := by
      intro k hk
      rw [← Dict.get?_eq_none_iff, Dict.get?_set_ne _ _ (fun h => hk h.symm)]
      rfl
    have hmerge : Mergeable S s.data [update] := by
      refine ⟨fun u hu k hk => ?_, fun k w hk => ?_⟩
      · rw [List.mem_singleton] at hu
        subst hu
        by_cases hkey : k = key
        · rw [hkey]
          exact (Dict.mem_keys_iff _ _).mpr ⟨y, hy⟩
        · exact absurd hk (hother k hkey)
      · by_cases hkey : k = key
        · subst hkey
          rw [hy] at hk
          cases hk
          rw [hafter]
          rfl
        · rw [fieldAfter_untouched (by simpa using hother k hkey)]
          rfl
    obtain ⟨t, ht, hdata⟩ := applyAny_of_mergeable hS hmerge
    exact ⟨t, .update hgrows ht, by rw [hdata, get?_merged hmerge hy, hafter]⟩

/-- A state of a class absorbs when the reducer of each field takes in what it makes of
the value that the field has now. -/
theorem absorbs_iff_takes (hS : Plain S) (state : WorkflowState (some S)) :
    Absorbs state ↔ ∀ key r x, S.reducers.get? key = some r → state.data.get? key = some x →
      Takes r x := by
  constructor
  · intro h key r x hr hx y hmade
    obtain ⟨t, hgrows, hy⟩ := grows_of_made hS hr hx hmade
    have happly := h t hgrows
    have hafter : fieldAfter S key x [t.data] = (r.reduce x y).toOption := by
      rw [fieldAfter_one_of_some hy]
      unfold written
      rw [hr]
    have hsame : fieldAfter S key x [t.data] = some y := by
      rcases of_applyAny hS happly with ⟨hempty, -⟩ | ⟨hmerge, hdata⟩
      · unfold Dict.get? at hy
        rw [hempty] at hy
        cases hy
      · rw [← get?_merged hmerge hx, ← hdata, hy]
    rw [hafter] at hsame
    rcases hreduce : r.reduce x y with e | w
    · simp [hreduce, Except.toOption] at hsame
    · simp only [hreduce, Except.toOption, Option.some.injEq] at hsame
      rw [hsame]
  · intro h t hgrows
    have hafter : ∀ k x, state.data.get? k = some x →
        fieldAfter S k x [t.data] = t.data.get? k := by
      intro k x hx
      have hmem : k ∈ t.data.keys := by
        rw [keys_data t, ← keys_data state]
        exact (Dict.mem_keys_iff _ _).mpr ⟨x, hx⟩
      obtain ⟨y, hy⟩ := (Dict.mem_keys_iff _ _).mp hmem
      rw [fieldAfter_one_of_some hy, hy]
      unfold written
      rcases hr : S.reducers.get? k with _ | r
      · rfl
      · obtain ⟨y', hy', hmade⟩ := made_of_grows hS hgrows hr hx
        rw [hy] at hy'
        cases hy'
        simp [h k r x hr hx y hmade, Except.toOption]
    have hmerge : Mergeable S state.data [t.data] := by
      refine ⟨fun u hu k hk => ?_, fun k x hx => ?_⟩
      · rw [List.mem_singleton] at hu
        subst hu
        rwa [keys_data state, ← keys_data t]
      · rw [hafter k x hx, Option.isSome_iff_exists, ← Dict.mem_keys_iff, keys_data t,
          ← keys_data state]
        exact (Dict.mem_keys_iff _ _).mpr ⟨x, hx⟩
    obtain ⟨t', ht', hdata⟩ := applyAny_of_mergeable hS hmerge
    have hsame : t'.data = t.data := by
      rw [hdata]
      apply Dict.ext_of_keys
      · rw [keys_merged, keys_data state, keys_data t]
      · intro k
        rcases hk : state.data.get? k with _ | x
        · rw [get?_merged_none hk]
          rw [Dict.get?_eq_none_iff, keys_data state, ← keys_data t] at hk
          exact ((Dict.get?_eq_none_iff _ _).mpr hk).symm
        · rw [get?_merged hmerge hk, hafter k x hk]
    rw [ht', WorkflowState.ext_data hsame]

end fields

/-! ## The reducers of `state.py` -/

theorem takes_lastWriteWins (x : Value) : Takes lastWriteWins x := fun _ _ => rfl

theorem takes_keepFirst (x : Value) : Takes keepFirst x := by
  intro y h
  have hsame : y = x := by
    induction h with
    | same => rfl
    | next _ reduced ih =>
      cases reduced
      exact ih
  rw [hsame]
  rfl

theorem takes_mergeDict (d : PyDict) : Takes mergeDict (.ofDict d) := by
  intro y h
  have hdict : ∃ e : PyDict, y = .ofDict e ∧ d.keys <+: e.keys := by
    induction h with
    | same => exact ⟨d, rfl, List.prefix_refl _⟩
    | @next y v z _ reduced ih =>
      obtain ⟨e, rfl, hkeys⟩ := ih
      cases v with
      | dict items =>
        simp only [mergeDict, Value.ofDict, Dict.ofList_entries] at reduced
        cases reduced
        exact ⟨e.setAll items, rfl, hkeys.trans (Dict.keys_before_setAll e items)⟩
      | _ => cases reduced
  obtain ⟨e, rfl, hkeys⟩ := hdict
  have hupdate : d.setAll e.entries = e := Dict.update_of_keys hkeys
  simp only [mergeDict, Value.ofDict, Dict.ofList_entries, hupdate]

/-- A maximum or minimum takes in what it makes of a number, and nothing else. -/
theorem takes_pickNumber_iff {name : String} {better : Int → Int → Bool}
    (hirreflexive : ∀ i, better i i = false)
    (htransitive : ∀ i j k, better i j = true → better j k = true → better i k = true)
    (x : Value) : Takes ⟨name, pickNumber better⟩ x ↔ (number x).isSome = true := by
  constructor
  · intro h
    have hsame := h x .same
    unfold pickNumber at hsame
    rcases hx : number x with _ | i
    · simp [hx] at hsame
    · rfl
  · intro hx y h
    obtain ⟨i, hi⟩ := Option.isSome_iff_exists.mp hx
    have hmade : y = x ∨ ∃ j, number y = some j ∧ better j i = true := by
      induction h with
      | same => exact Or.inl rfl
      | @next y v z _ reduced ih =>
        have hcases : z = y ∨ ∃ j k, number y = some j ∧ number z = some k ∧ better k j = true := by
          simp only [pickNumber] at reduced
          split at reduced
          · rename_i j k hj hk
            cases hbetter : better k j with
            | true =>
              rw [hbetter] at reduced
              cases reduced
              exact Or.inr ⟨j, k, hj, hk, hbetter⟩
            | false =>
              rw [hbetter] at reduced
              cases reduced
              exact Or.inl rfl
          · cases reduced
        rcases hcases with rfl | ⟨j, k, hj, hk, hkj⟩
        · exact ih
        · right
          refine ⟨k, hk, ?_⟩
          rcases ih with rfl | ⟨j', hj', hji⟩
          · rw [hi] at hj
            cases hj
            exact hkj
          · rw [hj'] at hj
            cases hj
            exact htransitive k j i hkj hji
    rcases hmade with rfl | ⟨j, hj, hji⟩
    · simp [pickNumber, hi, hirreflexive]
    · simp [pickNumber, hi, hj, hji]

/-- A sum or a concatenation takes in what it makes of a number, a list or a string
exactly when that is zero or empty. -/
theorem takes_plus_iff {name : String} {x : Value}
    (hx : (∃ i, x = .int i) ∨ (∃ xs, x = .list xs) ∨ ∃ s, x = .str s) :
    Takes ⟨name, plus⟩ x ↔ x = .int 0 ∨ x = .list [] ∨ x = .str "" := by
  constructor
  · intro h
    have hsame : plus x x = .ok x := h x .same
    rcases hx with ⟨i, rfl⟩ | ⟨xs, rfl⟩ | ⟨s, rfl⟩
    · left
      have hi : i + i = i := by simpa [plus, number] using hsame
      rw [show i = 0 by omega]
    · right; left
      simpa [plus] using hsame
    · right; right
      simpa [plus] using hsame
  · rintro (rfl | rfl | rfl) y hmade
    · have hint : ∃ j, y = .int j := by
        induction hmade with
        | same => exact ⟨0, rfl⟩
        | @next y v z _ reduced ih =>
          obtain ⟨j, rfl⟩ := ih
          simp only [plus, number] at reduced
          split at reduced
          · cases reduced
            exact ⟨_, rfl⟩
          · cases reduced
      obtain ⟨j, rfl⟩ := hint
      simp [plus, number]
    · have hlist : ∃ ys, y = .list ys := by
        induction hmade with
        | same => exact ⟨[], rfl⟩
        | @next y v z _ reduced ih =>
          obtain ⟨ys, rfl⟩ := ih
          cases v with
          | list zs =>
            cases reduced
            exact ⟨_, rfl⟩
          | _ => simp [plus, number] at reduced
      obtain ⟨ys, rfl⟩ := hlist
      rfl
    · have hstr : ∃ t, y = .str t := by
        induction hmade with
        | same => exact ⟨"", rfl⟩
        | @next y v z _ reduced ih =>
          obtain ⟨t, rfl⟩ := ih
          cases v with
          | str u =>
            cases reduced
            exact ⟨_, rfl⟩
          | _ => simp [plus, number] at reduced
      obtain ⟨t, rfl⟩ := hstr
      simp [plus]

/-! ## A counter -/

theorem countSchema_plain : Plain countSchema := fun _ hd => validate_ofDefaults hd

def counted (i : Int) : PyDict := Dict.ofList [("count", .int i), ("note", .str "")]

def countState (i : Int) : WorkflowState (some countSchema) where
  data := counted i
  settled S hS := by
    cases hS
    exact validate_ofDefaults rfl

theorem absorbs_count_iff (i : Int) : Absorbs (countState i) ↔ i = 0 := by
  rw [absorbs_iff_takes countSchema_plain]
  constructor
  · intro h
    have hplus : Takes sumNumbers (.int i) := h "count" sumNumbers (.int i) rfl rfl
    have hzero := (takes_plus_iff (Or.inl ⟨i, rfl⟩)).mp hplus
    simpa using hzero
  · rintro rfl key r x hr hx
    have hreducers : countSchema.reducers = Dict.ofList [("count", sumNumbers)] := rfl
    rw [hreducers, ← Dict.mem_entries_iff] at hr
    simp only [Dict.ofList, Dict.setAll, List.foldl_cons, List.foldl_nil, Dict.set, setEntries,
      Dict.empty, List.mem_singleton, Prod.mk.injEq] at hr
    obtain ⟨rfl, rfl⟩ := hr
    cases hx
    exact (takes_plus_iff (Or.inl ⟨0, rfl⟩)).mpr (Or.inl rfl)

/-- The loop of a parent at its subgraph, with a count of one. -/
def atSubgraph : Loop (some countSchema) :=
  ⟨.node "subgraph", countState 1, nestedCtx "parent", false⟩

/-- A subgraph that counts two. -/
def countsTwo : CompiledGraph :=
  withClass (chain [Dict.ofList [("count", .int 2)]]) (some countSchema)

theorem a_count_is_added_twice :
    Uninterrupted countsTwo ∧
      afterInlining countsTwo inOrder atSubgraph = some (counted 3) ∧
      afterSubgraph countsTwo inOrder (fun _ => "nested") false false atSubgraph =
        some (counted 4) ∧
      counted 3 ≠ counted 4 := by
  refine ⟨chain_uninterrupted _, ?_, ?_, ?_⟩
  · decide +kernel
  · decide +kernel
  · decide

end orchestra.inlining
