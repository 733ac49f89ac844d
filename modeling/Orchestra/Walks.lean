-- A run of the loop as a walk: which nodes stand in the execution order of the
-- context, which node follows which, and how the limit on turns and END decide
-- between them how the run ends.
import Orchestra.Graph
import Orchestra.Runs
import Orchestra.Turns

open dicts logged machine orchestra.state orchestra.edges orchestra.events orchestra.nodes
open orchestra.compiled orchestra.graph orchestra.turns orchestra.runs

namespace orchestra.walks

variable {G : CompiledGraph} {env : Env}

/-! ## The execution order -/

/-- The node of the turn runs to its end. Then it stands in the execution order, also when
its update or the way out fails. -/
def nodeRuns (L : Loop G.schema) : Bool :=
  match G.nodes.get? L.current.text with
  | none => false
  | some node =>
    !(node.interruptBefore && !L.bypass) &&
      (executeNode G.schema L.current.text node L.state.data L.enter).result.isOk

/-- `context.node_execution_order` after the loop, with `left` turns left. -/
def orderFrom (G : CompiledGraph) (env : Env) : Nat → Loop G.schema → List String
  | 0, L => L.ctx.nodeExecutionOrder
  | left + 1, L =>
    if L.current = .END then L.ctx.nodeExecutionOrder
    else
      match (turn G env L).result with
      | .ok (.next L') => orderFrom G env left L'
      | _ => L.ctx.nodeExecutionOrder ++ if nodeRuns L then [L.current.text] else []

def executionOrder (G : CompiledGraph) (env : Env) (L : Loop G.schema) : List String :=
  orderFrom G env (G.maxTurns - L.ctx.turnNumber) L

/-! ## Walks -/

/-- The turn at `L` completes its node, and `_resolve_next` leads on to `L'`. -/
structure LeadsTo (G : CompiledGraph) (env : Env) (L L' : Loop G.schema) (node : GraphNode)
    (state : WorkflowState G.schema) (ctx : Ctx) (r : Resolution G.schema) : Prop where
  going : L.current ≠ .END
  completes : Completes L node state ctx
  goesOn : node.interruptAfter = false
  resolves : (resolveNext G env ctx L.current.text state.data state).result = .ok r
  there : L' = Loop.after ctx r

def Leads (G : CompiledGraph) (env : Env) (L L' : Loop G.schema) : Prop :=
  ∃ node state ctx r, LeadsTo G env L L' node state ctx r

/-- From `L` on these nodes run, each where the one before it leads to. -/
inductive IsWalk (G : CompiledGraph) (env : Env) : Loop G.schema → List String → Prop
  | stop (L : Loop G.schema) : IsWalk G env L []
  | last {L : Loop G.schema} (going : L.current ≠ .END) (runs : nodeRuns L = true) :
    IsWalk G env L [L.current.text]
  | step {L L' : Loop G.schema} {rest : List String} (first : Leads G env L L')
    (more : IsWalk G env L' rest) : IsWalk G env L (L.current.text :: rest)

/-- END is resolved after `n` turns at most. -/
def EndsWithin (G : CompiledGraph) (env : Env) : Nat → Loop G.schema → Prop
  | 0, L => L.current = .END
  | n + 1, L => L.current = .END ∨ ∃ L', Leads G env L L' ∧ EndsWithin G env n L'

/-- Every turn that a run of the loop takes completes its node without a pause, and finds a
way out of it. -/
def Smooth (G : CompiledGraph) (env : Env) (L₀ : Loop G.schema) : Prop :=
  ∀ logs L, Run (loopMachine G env L₀) L₀ logs L → L.current ≠ .END →
    L.ctx.turnNumber < G.maxTurns → ∀ node, G.nodes.get? L.current.text = some node →
      node.interruptBefore = false ∧ node.interruptAfter = false ∧
        ∃ state ctx r, (completeNode L.current.text node L.state L.enter).result =
            .ok (state, ctx) ∧
          (resolveNext G env ctx L.current.text state.data state).result = .ok r

/-- The ways out of nodes lead to END and to nodes of the graph only. -/
def Closed (G : CompiledGraph) (env : Env) : Prop :=
  ∀ ctx nodeId stateDict state r,
    (resolveNext G env ctx nodeId stateDict state).result = .ok r → Known G r.next

/-! ## One turn -/

theorem turn_of_leads {L L' : Loop G.schema} (h : Leads G env L L') :
    (turn G env L).result = .ok (.next L') := by
  obtain ⟨node, state, ctx, r, h⟩ := h
  rw [turn_of_completes h.completes, h.resolves, h.there]
  simp [Except.map, leaves, h.goesOn]

/-- A turn that goes on completed its node, and was led on. -/
theorem leads_of_turn {L L' : Loop G.schema} (hend : L.current ≠ .END)
    (h : (turn G env L).result = .ok (.next L')) : Leads G env L L' := by
  obtain ⟨node, ctx, r, hfound, hstarts, hafter, hw, rfl⟩ :=
    turn_next (Logged.ext (y := ⟨(turn G env L).log, .ok (TurnEnd.next L')⟩) rfl h)
  obtain ⟨state, l, m, hc, hr, -⟩ := walk_ok hw
  exact ⟨node, state, ctx, r, hend, ⟨hfound, hstarts, congrArg Logged.result hc⟩, hafter,
    congrArg Logged.result hr, rfl⟩

theorem order_of_leads {L L' : Loop G.schema} (h : Leads G env L L') :
    L'.ctx.nodeExecutionOrder = L.ctx.nodeExecutionOrder ++ [L.current.text] ∧
      L'.ctx.turnNumber = L.ctx.turnNumber + 1 := by
  obtain ⟨node, state, ctx, r, h⟩ := h
  obtain ⟨update, mode, nodeLog, hdone⟩ :=
    completeNode_ok (Logged.ext (y := ⟨_, .ok (state, ctx)⟩) rfl h.completes.completed)
  rw [h.there]
  exact ⟨congrArg Ctx.nodeExecutionOrder hdone.left, congrArg Ctx.turnNumber hdone.left⟩

theorem known_of_leads (hclosed : Closed G env) {L L' : Loop G.schema} (h : Leads G env L L') :
    Known G L'.current := by
  obtain ⟨node, state, ctx, r, h⟩ := h
  rw [h.there]
  exact hclosed _ _ _ _ r h.resolves

/-! ## The order is a walk -/

/-- What the loop adds to the execution order is a walk, of one node a turn at most. -/
theorem orderFrom_walk (left : Nat) (L : Loop G.schema) :
    ∃ nodes, orderFrom G env left L = L.ctx.nodeExecutionOrder ++ nodes ∧
      IsWalk G env L nodes ∧ nodes.length ≤ left := by
  induction left generalizing L with
  | zero => exact ⟨[], (List.append_nil _).symm, .stop L, Nat.le_refl _⟩
  | succ left ih =>
    unfold orderFrom
    by_cases hend : L.current = .END
    · rw [if_pos hend]
      exact ⟨[], (List.append_nil _).symm, .stop L, Nat.zero_le _⟩
    rw [if_neg hend]
    have hlast : ∃ nodes,
        (L.ctx.nodeExecutionOrder ++ if nodeRuns L then [L.current.text] else []) =
          L.ctx.nodeExecutionOrder ++ nodes ∧ IsWalk G env L nodes ∧ nodes.length ≤ left + 1 := by
      rcases hruns : nodeRuns L with _ | _
      · exact ⟨[], rfl, .stop L, Nat.zero_le _⟩
      · exact ⟨[L.current.text], rfl, .last hend hruns, Nat.le_add_left 1 left⟩
    rcases hturn : (turn G env L).result with e | L' | p
    · exact hlast
    · have hleads := leads_of_turn hend hturn
      obtain ⟨nodes, horder, hwalk, hlength⟩ := ih L'
      refine ⟨L.current.text :: nodes, ?_, .step hleads hwalk, Nat.succ_le_succ hlength⟩
      show orderFrom G env left L' = _
      rw [horder, (order_of_leads hleads).1, List.append_assoc]
      rfl
    · exact hlast

/-- A path of turns is no longer than the limit allows. -/
theorem turns_of_run {L₀ L L' : Loop G.schema} {logs : List (List Note)}
    (h : Run (loopMachine G env L₀) L logs L') :
    L'.ctx.turnNumber = L.ctx.turnNumber + logs.length ∧
      (L.ctx.turnNumber ≤ G.maxTurns → L'.ctx.turnNumber ≤ G.maxTurns) := by
  induction h with
  | stay L => exact ⟨rfl, id⟩
  | step first _ ih =>
    have hnum := turnNumber_next first.2.2
    have hlt := first.2.1
    obtain ⟨hcount, hle⟩ := ih
    refine ⟨?_, fun _ => hle (by omega)⟩
    rw [hcount, hnum, List.length_cons]
    omega

/-! ## How a smooth run ends -/

/-- A smooth turn goes on. -/
theorem leads_of_smooth {L₀ L : Loop G.schema} (h : Smooth G env L₀) {logs : List (List Note)}
    (hrun : Run (loopMachine G env L₀) L₀ logs L) (hknown : Known G L.current)
    (hend : L.current ≠ .END) (hlt : L.ctx.turnNumber < G.maxTurns) :
    ∃ L', Leads G env L L' := by
  obtain ⟨node, hfound⟩ : ∃ node, G.nodes.get? L.current.text = some node := by
    rcases hcurrent : L.current with _ | id
    · exact absurd hcurrent hend
    · rw [hcurrent] at hknown
      exact (Dict.mem_keys_iff _ _).mp hknown
  obtain ⟨hbefore, hafter, state, ctx, r, hcompleted, hresolved⟩ :=
    h logs L hrun hend hlt node hfound
  have hstarts : (node.interruptBefore && !L.bypass) = false := by rw [hbefore]; rfl
  exact ⟨_, node, state, ctx, r, hend, ⟨hfound, hstarts, hcompleted⟩, hafter, hresolved, rfl⟩

/-- From any place of a smooth run, the loop completes when END is resolved in the turns that
are left, and runs out of turns otherwise. -/
theorem loopFrom_smooth (hclosed : Closed G env) {L₀ : Loop G.schema} (h : Smooth G env L₀)
    (left : Nat) {L : Loop G.schema} {logs : List (List Note)}
    (hrun : Run (loopMachine G env L₀) L₀ logs L) (hknown : Known G L.current)
    (hleft : left = G.maxTurns - L.ctx.turnNumber) :
    (EndsWithin G env left L → ∃ s, (loopFrom G env left L).ending = .completed s) ∧
      (¬EndsWithin G env left L → ∃ nodeId last,
        (loopFrom G env left L).ending = .failed nodeId (.maxIterations G.maxTurns last)) := by
  induction left generalizing L logs with
  | zero =>
    unfold loopFrom EndsWithin
    by_cases hend : L.current = .END
    · simp only [hend, if_true]
      exact ⟨fun _ => ⟨_, rfl⟩, fun hnot => absurd trivial hnot⟩
    · simp only [hend, if_false]
      exact ⟨False.elim, fun _ => ⟨_, _, rfl⟩⟩
  | succ left ih =>
    unfold loopFrom EndsWithin
    by_cases hend : L.current = .END
    · simp only [hend, if_true, true_or]
      exact ⟨fun _ => ⟨_, rfl⟩, fun hnot => absurd trivial hnot⟩
    have hlt : L.ctx.turnNumber < G.maxTurns := by omega
    obtain ⟨L', hleads⟩ := leads_of_smooth h hrun hknown hend hlt
    have hturn := turn_of_leads hleads
    have hnext := ih (hrun.snoc ⟨hend, hlt, Logged.ext rfl hturn⟩) (known_of_leads hclosed hleads)
      (by rw [(order_of_leads hleads).2]; omega)
    simp only [hend, if_false, false_or, hturn]
    constructor
    · rintro ⟨M, hM, hends⟩
      have hsame : M = L' := by
        have hboth := (turn_of_leads hM).symm.trans hturn
        cases hboth
        rfl
      rw [hsame] at hends
      exact hnext.1 hends
    · intro hnot
      exact hnext.2 (fun hends => hnot ⟨L', hleads, hends⟩)

/-! ## Runs -/

/-- A run from the entry point, in a fresh context, of a graph whose ways out lead to its own
nodes or to END. What stands in the execution order is a walk, no longer than the limit on
turns. When no node fails or pauses, the run completes exactly when END is resolved within
the limit, and is out of turns otherwise. -/
theorem runs_are_bounded_walks {g : WorkflowGraph} {maxTurns : Nat}
    (hG : g.compile maxTurns = .ok G) (hclosed : Closed G env) (input : RunInput)
    (hstart : input.startAt = none) (hturns : input.context.turnNumber = 0)
    (horder : input.context.nodeExecutionOrder = []) {state : WorkflowState G.schema}
    (hstate : WorkflowState.ofDict G.schema input.initialState = .ok state) :
    let L := runStart G input state
    L.current = .node G.entryPoint ∧
      IsWalk G env L (executionOrder G env L) ∧
      (executionOrder G env L).length ≤ G.maxTurns ∧
      (∀ logs L', Run (loopMachine G env L) L logs L' → logs.length ≤ G.maxTurns) ∧
      (Smooth G env L →
        (EndsWithin G env G.maxTurns L → ∃ s, (run G env input).outcome = .completed s) ∧
        (¬EndsWithin G env G.maxTurns L → ∃ last,
          (run G env input).outcome = .raised (.maxIterations G.maxTurns last))) := by
  intro L
  have hcurrent : L.current = .node G.entryPoint := by
    show input.start G = _
    unfold RunInput.start
    rw [hstart]
  have hzero : L.ctx.turnNumber = 0 := hturns
  have hempty : L.ctx.nodeExecutionOrder = [] := horder
  obtain ⟨nodes, hnodes, hwalk, hlength⟩ :=
    orderFrom_walk (G.maxTurns - L.ctx.turnNumber) L
  rw [hempty, List.nil_append] at hnodes
  refine ⟨hcurrent, ?_, ?_, ?_, ?_⟩
  · unfold executionOrder
    rw [hnodes]
    exact hwalk
  · unfold executionOrder
    rw [hnodes]
    omega
  · intro logs L' hrun
    obtain ⟨hcount, hle⟩ := turns_of_run hrun
    have := hle (by omega)
    omega
  · intro hsmooth
    have hknown : Known G L.current := by
      rw [hcurrent]
      exact (compile_checked hG).entry
    have hloop := loopFrom_smooth hclosed hsmooth G.maxTurns (.stay L) hknown (by omega)
    have hending : (run G env input).outcome = (loopFrom G env G.maxTurns L).ending.outcome := by
      rw [run_valid G env input hstate, outcome_finish]
      unfold runLoop
      rw [show G.maxTurns - (runStart G input state).ctx.turnNumber = G.maxTurns from by
        show G.maxTurns - L.ctx.turnNumber = _
        omega]
    constructor
    · intro hends
      obtain ⟨s, hs⟩ := hloop.1 hends
      exact ⟨s, by rw [hending, hs]; rfl⟩
    · intro hnot
      obtain ⟨nodeId, last, hfailed⟩ := hloop.2 hnot
      exact ⟨last, by rw [hending, hfailed]; rfl⟩

/-- A graph with plain edges only is closed when it passes the check. -/
theorem closed_of_plain (hchecked : Checked G)
    (hplain : ∀ e ∈ G.edges, ∃ source target, e = .plain source target)
    (hnone : G.handoffEdges = []) : Closed G env := by
  intro ctx nodeId stateDict state r h
  unfold resolveNext at h
  rcases hedges : G.edgesFrom nodeId with _ | ⟨e, rest⟩
  · rw [hedges, hnone] at h
    cases h
    exact trivial
  · have hmem : e ∈ G.edges := by
      have hfrom : e ∈ G.edgesFrom nodeId := by
        rw [hedges]
        exact List.mem_cons_self ..
      exact (List.mem_filter.mp hfrom).1
    obtain ⟨source, target, rfl⟩ := hplain e hmem
    rw [hedges] at h
    cases h
    exact hchecked.targets _ hmem target (List.mem_singleton.mpr rfl)

/-- A draft and its review, as the builder gathers them. -/
def review : WorkflowGraph where
  schema := none
  name := ""
  nodes := Dict.ofList [
    ("draft", .function (pureNode "draft" fun _ => Dict.ofList [("text", .str "a poem")])),
    ("check", .function (pureNode "check" fun _ => Dict.ofList [("approved", .bool true)]))]
  edges := [.plain "draft" (.node "check"), .plain "check" .END]
  handoffEdges := []
  entryPoint := some "draft"
  lastNode := none
  parallelNodes := none

/-- END is resolved on the very last of two turns. -/
theorem a_review_in_two_turns_completes :
    ∃ G, review.compile 2 = .ok G ∧
      ∃ s, (run G inOrder (plainInput .empty)).outcome = .completed s := by
  have hcompile : ∃ G, review.compile 2 = .ok G := ⟨_, rfl⟩
  obtain ⟨G, hG⟩ := hcompile
  refine ⟨G, hG, ?_⟩
  have hclosed : Closed G inOrder := by
    refine closed_of_plain (compile_checked hG) ?_ ?_ <;> cases hG
    · intro e he
      rcases List.mem_pair.mp he with rfl | rfl
      · exact ⟨_, _, rfl⟩
      · exact ⟨_, _, rfl⟩
    · rfl
  cases hG
  have h := (runs_are_bounded_walks (g := review) rfl hclosed (plainInput .empty)
    rfl rfl rfl rfl).2.2.2.2
  refine (h ?_).1 ?_
  · intro logs L _ _ _ node hfound
    have hmem := (Dict.mem_entries_iff _ _ _).mpr hfound
    rcases List.mem_pair.mp hmem with h | h
    · obtain ⟨hid, rfl⟩ := Prod.mk.inj h
      refine ⟨rfl, rfl, ?_⟩
      rw [hid]
      exact ⟨_, _, _, rfl, rfl⟩
    · obtain ⟨hid, rfl⟩ := Prod.mk.inj h
      refine ⟨rfl, rfl, ?_⟩
      rw [hid]
      exact ⟨_, _, _, rfl, rfl⟩
  · refine .inr ⟨_, leads_of_turn (by decide) rfl, .inr ⟨_, leads_of_turn (by decide) rfl, rfl⟩⟩

end orchestra.walks
