-- What a handoff hands over: control goes to the next agent, with the distilled
-- conversation in the state. The closing edge of `compile`, a pause after the node, the
-- reducer of the messages and the class of the state each stand in the way.
import Orchestra.Graph
import Orchestra.Lockdown
import Orchestra.Merging

open dicts logged machine orchestra.state orchestra.edges orchestra.nodes orchestra.distill
open orchestra.compiled orchestra.turns orchestra.runs orchestra.graph orchestra.lockdown
open orchestra.merging

namespace orchestra.handoffs

variable {G : CompiledGraph} {env : Env} {g : WorkflowGraph} {e : HandoffEdge}

/-! ## The handoff of a graph -/

/-- The only way out that the author gave the node: a handoff without a condition, with
distillation. -/
structure OnlyHandoff (g : WorkflowGraph) (e : HandoffEdge) : Prop where
  unconditional : e.condition = none
  distills : e.distill = true
  only : g.handoffEdges.filter (fun other => other.source = e.source) = [e]
  noEdge : ∀ edge ∈ g.edges, edge.source ≠ e.source

/-- The closing edge is the only edge out of the node. -/
theorem edgesFrom_handoff {maxTurns : Nat} (h : g.compile maxTurns = .ok G)
    (honly : OnlyHandoff g e) :
    G.edgesFrom e.source = if g.lastNode = some e.source then [.plain e.source .END] else [] := by
  have hauthor : g.edges.filter (fun edge => edge.source = e.source) = [] := by
    rw [List.filter_eq_nil_iff]
    intro edge hedge
    simpa using honly.noEdge edge hedge
  unfold CompiledGraph.edgesFrom
  rw [(edges_of_compile h).1, List.filter_append, hauthor, List.nil_append]
  unfold WorkflowGraph.closingEdge
  rcases hlast : g.lastNode with _ | last
  · simp
  · by_cases hsource : last = e.source
    · subst hsource
      have hnone : g.edges.any (fun edge => edge.source = e.source) = false := by
        rw [List.any_eq_false]
        intro edge hedge
        simpa using honly.noEdge edge hedge
      simp only [hnone, Bool.false_eq_true, if_false]
      simp [GraphEdge.source]
    · simp only [Option.some.injEq, hsource, if_false]
      split
      · rfl
      · simp [GraphEdge.source, hsource]

theorem pickHandoff_of_filter {source : String} {handoffs : List HandoffEdge}
    (h : handoffs.filter (fun other => other.source = source) = [e])
    (hcondition : e.condition = none) (stateDict : PyDict) :
    pickHandoff source stateDict handoffs = .ok (some e) := by
  induction handoffs with
  | nil => cases h
  | cons other rest ih =>
    rw [List.filter_cons] at h
    unfold pickHandoff
    by_cases hsource : other.source = source
    · simp only [hsource, decide_true, if_true, List.cons.injEq] at h
      obtain ⟨rfl, -⟩ := h
      simp [hsource, hcondition]
    · simp only [hsource, decide_false, Bool.false_eq_true, if_false] at h ⊢
      exact ih h

/-! ## What the state takes -/

/-- `state.get("messages", [])` -/
def messagesOf (d : PyDict) : Value := (d.get? "messages").getD (.list [])

/-- The class has the field, and its reducer makes `written` of the old value and the new. -/
def FieldTakes (S : Schema) (d : PyDict) (key : String) (value new : Value) : Prop :=
  ∃ old, d.get? key = some old ∧ written S key old value = some new

/-- The class takes the payload and the messages, and makes `s` of the state. -/
def ClassTakes (S : Schema) (d : PyDict) (e : HandoffEdge) (history : List Value) (s : PyDict) :
    Prop :=
  ∃ payload messages, FieldTakes S d "handoff_payload" (handoffPayload e history) payload ∧
    FieldTakes S d "messages" (.list history) messages ∧
    S.validate ((d.set "handoff_payload" payload).set "messages" messages) = .ok s

theorem updateFields_cons_iff {S : Schema} {d new s : PyDict} {key : String} {value : Value}
    {rest : List (String × Value)} :
    updateFields S d ((key, value) :: rest) new = .ok s ↔
      ∃ w, FieldTakes S d key value w ∧ updateFields S d rest (new.set key w) = .ok s := by
  unfold FieldTakes written
  conv_lhs => unfold updateFields
  rcases d.get? key with _ | old
  · simp
  rcases S.reducers.get? key with _ | r
  · simp
  rcases hr : r.reduce old value with error | w
  · simp [hr, Except.toOption]
  · simp [hr, Except.toOption]

/-- The update of a handoff goes into a state of a class. -/
theorem applyStateUpdate_handoff_iff {S : Schema} {d s : PyDict} {history : List Value} :
    applyStateUpdate S d (Dict.ofList (handoffFields e history)) = .ok s ↔
      ClassTakes S d e history s := by
  have hentries : (Dict.ofList (handoffFields e history)).entries = handoffFields e history := rfl
  unfold applyStateUpdate ClassTakes
  rw [hentries]
  constructor
  · intro h
    split at h
    · rename_i new hnew
      obtain ⟨payload, hpayload, hrest⟩ := updateFields_cons_iff.mp hnew
      obtain ⟨messages, hmessages, hdone⟩ := updateFields_cons_iff.mp hrest
      cases hdone
      refine ⟨payload, messages, hpayload, hmessages, ?_⟩
      unfold validateState at h
      split at h
      · rename_i s' hs'
        cases h
        exact hs'
      · cases h
    · cases h
  · rintro ⟨payload, messages, hpayload, hmessages, hvalid⟩
    have hfields : updateFields S d (handoffFields e history) d =
        .ok ((d.set "handoff_payload" payload).set "messages" messages) :=
      updateFields_cons_iff.mpr ⟨payload, hpayload,
        updateFields_cons_iff.mpr ⟨messages, hmessages, rfl⟩⟩
    simp only [hfields, validateState, hvalid]

/-- The state takes the update of a handoff, and makes `s` of it. -/
def StateTakes (schema : Option Schema) (d : PyDict) (e : HandoffEdge) (history : List Value)
    (s : PyDict) : Prop :=
  match schema with
  | none => s = d.update (Dict.ofList (handoffFields e history))
  | some S => ClassTakes S d e history s

theorem apply_handoff_iff {schema : Option Schema} {state : WorkflowState schema}
    {history : List Value} {s : PyDict} :
    (∃ t, state.apply (Dict.ofList (handoffFields e history)) = .ok t ∧ t.data = s) ↔
      StateTakes schema state.data e history s := by
  cases schema with
  | none =>
    simp only [WorkflowState.apply, Except.ok.injEq, StateTakes]
    constructor
    · rintro ⟨t, rfl, rfl⟩
      rfl
    · rintro rfl
      exact ⟨_, rfl, rfl⟩
  | some S =>
    show _ ↔ ClassTakes S state.data e history s
    rw [← applyStateUpdate_handoff_iff]
    simp only [WorkflowState.apply]
    split
    · rename_i s' hs'
      constructor
      · rintro ⟨t, ht, rfl⟩
        cases ht
        exact hs'
      · intro h
        exact ⟨_, rfl, Except.ok.inj (hs'.symm.trans h)⟩
    · rename_i error herror
      constructor
      · rintro ⟨t, ht, -⟩
        cases ht
      · intro h
        cases herror.symm.trans h

/-! ## One turn -/

/-- Where the run goes on after a turn, and the state it goes on with. -/
def goesOn {schema : Option Schema} : TurnEnd schema → Target × PyDict
  | .next L => (L.current, L.state.data)
  | .paused p => (.node p.nodeId, p.state)

theorem result_handoff {ctx : Ctx} {state : WorkflowState G.schema} (hdistills : e.distill = true)
    (hbus : ctx.hasBus = true) (t : WorkflowState G.schema) :
    (handoff ctx e state.data state).result = .ok t ↔
      ∃ history, distillContext (messagesOf state.data) = .ok history ∧
        state.apply (Dict.ofList (handoffFields e history)) = .ok t := by
  unfold handoff messagesOf
  simp only [hdistills, if_true, hbus]
  rcases distillContext ((state.data.get? "messages").getD (.list [])) with error | history
  · constructor
    · intro h
      cases h
    · rintro ⟨history, h, -⟩
      cases h
  · constructor
    · intro h
      exact ⟨history, rfl, h⟩
    · rintro ⟨other, h, happly⟩
      cases h
      exact happly

/-- The way out by the handoff alone. -/
theorem resolveNext_handoff (env : Env) {ctx : Ctx} {state : WorkflowState G.schema}
    {source : String}
    (hedges : G.edgesFrom source = [])
    (hpick : pickHandoff source state.data G.handoffEdges = .ok (some e))
    (hdistills : e.distill = true) (hbus : ctx.hasBus = true) (r : Resolution G.schema) :
    (resolveNext G env ctx source state.data state).result = .ok r ↔
      ∃ history, distillContext (messagesOf state.data) = .ok history ∧
        ∃ t, state.apply (Dict.ofList (handoffFields e history)) = .ok t ∧
          r = ⟨.node e.target, t, state.data, ctx.loopCounters⟩ := by
  have hway : resolveNext G env ctx source state.data state = (do
      let t ← handoff ctx e state.data state
      pure ⟨.node e.target, t, state.data, ctx.loopCounters⟩) := by
    unfold resolveNext
    simp only [hedges, hpick]
    rfl
  rw [hway]
  have hresult (t : WorkflowState G.schema) :
      (handoff ctx e state.data state).result = .ok t ↔ _ := result_handoff hdistills hbus t
  rcases hh : (handoff ctx e state.data state).result with error | t
  · rw [Logged.bind_error _ hh]
    constructor
    · intro h
      cases h
    · rintro ⟨history, hhistory, t, happly, -⟩
      cases hh.symm.trans ((hresult t).mpr ⟨history, hhistory, happly⟩)
  · rw [Logged.bind_ok _ hh]
    constructor
    · intro h
      cases h
      obtain ⟨history, hhistory, happly⟩ := (hresult t).mp hh
      exact ⟨history, hhistory, t, happly, rfl⟩
    · rintro ⟨history, hhistory, t', happly, rfl⟩
      cases hh.symm.trans ((hresult t').mpr ⟨history, hhistory, happly⟩)
      rfl

/-! ## What a handoff is for -/

/-- The node hands over whenever it runs: it is the only node of its turn, and the run goes
on at the target, with the distillation of the messages that the node left. -/
structure Transfers (G : CompiledGraph) (env : Env) (e : HandoffEdge) (L : Loop G.schema) :
    Prop where
  alone : e.source ∈ ranNodes (turn G env L).log → L.current.text = e.source
  passes : ∀ node state ctx, L.current.text = e.source → Completes L node state ctx →
    ∃ t history, (turn G env L).result = .ok t ∧
      distillContext (messagesOf state.data) = .ok history ∧
      (goesOn t).1 = .node e.target ∧ messagesOf (goesOn t).2 = .list history

/-- Nothing stands in the way of the handoff: no fan-out calls the node, its messages can be
distilled, no closing edge leaves the node, and the state takes the distillation. A pause
after the node saves the messages of the node. It also saves the next node by its text, so
past a closing edge a resumed run goes on at a node with the id `END`. -/
structure CanTransfer (g : WorkflowGraph) (e : HandoffEdge) (L : Loop G.schema) : Prop where
  beside : ∀ node state ctx, Completes L node state ctx →
    ∀ b ∈ branchesFrom G ctx L.current.text state.data, b.nodeId ≠ e.source
  goes : ∀ node state ctx, L.current.text = e.source → Completes L node state ctx →
    ∃ history, distillContext (messagesOf state.data) = .ok history ∧
      if g.lastNode = some e.source then
        node.interruptAfter = true ∧ e.target = Target.END.text ∧
          messagesOf state.data = .list history
      else ∃ s, StateTakes G.schema state.data e history s ∧
        messagesOf (if node.interruptAfter then state.data else s) = .list history

/-- A closing edge leads to the end, past the handoff. -/
theorem closing_turn_iff {L : Loop G.schema} {node : GraphNode} {state : WorkflowState G.schema}
    {ctx : Ctx} (hedges : G.edgesFrom L.current.text = [.plain L.current.text .END])
    (h : Completes L node state ctx) {history : List Value} :
    (∃ t, (turn G env L).result = .ok t ∧ (goesOn t).1 = .node e.target ∧
        messagesOf (goesOn t).2 = .list history) ↔
      node.interruptAfter = true ∧ e.target = Target.END.text ∧
        messagesOf state.data = .list history := by
  have hway : (resolveNext G env ctx L.current.text state.data state).result =
      .ok ⟨.END, state, state.data, ctx.loopCounters⟩ := by
    unfold resolveNext
    simp only [hedges]
    rfl
  rw [turn_of_completes h, hway]
  simp only [Except.map, Except.ok.injEq, exists_eq_left', leaves]
  rcases node.interruptAfter with _ | _
  · constructor
    · rintro ⟨htarget, -⟩
      cases htarget
    · rintro ⟨hafter, -⟩
      cases hafter
  · constructor
    · rintro ⟨htarget, hmessages⟩
      exact ⟨rfl, (Target.node.inj htarget).symm, hmessages⟩
    · rintro ⟨-, htarget, hmessages⟩
      exact ⟨congrArg Target.node htarget.symm, hmessages⟩

/-- Past a node, a pause keeps the dict of the node, and a turn the state of the handoff. -/
theorem goesOn_leaves {L : Loop G.schema} {node : GraphNode} {ctx : Ctx} {id : String}
    {state t : WorkflowState G.schema} {counters : Counters} :
    goesOn (leaves L node ctx ⟨.node id, t, state.data, counters⟩) =
      (.node id, if node.interruptAfter then state.data else t.data) := by
  unfold leaves
  split <;> rfl

/-- Where the node has no edge, its turn ends as the handoff does. -/
theorem handoff_turn_iff {L : Loop G.schema} {node : GraphNode} {state : WorkflowState G.schema}
    {ctx : Ctx} (hedges : G.edgesFrom L.current.text = [])
    (hpick : pickHandoff L.current.text state.data G.handoffEdges = .ok (some e))
    (hdistills : e.distill = true) (hbus : L.ctx.hasBus = true) (h : Completes L node state ctx)
    {history : List Value} (hhistory : distillContext (messagesOf state.data) = .ok history) :
    (∃ t, (turn G env L).result = .ok t ∧ (goesOn t).1 = .node e.target ∧
        messagesOf (goesOn t).2 = .list history) ↔
      ∃ s, StateTakes G.schema state.data e history s ∧
        messagesOf (if node.interruptAfter then state.data else s) = .list history := by
  have hway := resolveNext_handoff env hedges hpick hdistills
    ((bus_of_completes h).trans hbus)
  rw [turn_of_completes h]
  constructor
  · rintro ⟨t, ht, -, hmessages⟩
    rcases hr : (resolveNext G env ctx L.current.text state.data state).result with error | r
    · rw [hr] at ht
      cases ht
    · rw [hr] at ht
      cases ht
      obtain ⟨other, hother, s, happly, rfl⟩ := (hway r).mp hr
      cases hhistory.symm.trans hother
      rw [goesOn_leaves] at hmessages
      exact ⟨s.data, apply_handoff_iff.mp ⟨s, happly, rfl⟩, hmessages⟩
  · rintro ⟨s, htakes, hmessages⟩
    obtain ⟨t, happly, rfl⟩ := apply_handoff_iff.mpr htakes
    have hr := (hway _).mpr ⟨history, hhistory, t, happly, rfl⟩
    refine ⟨_, by rw [hr]; rfl, ?_, ?_⟩
    · rw [goesOn_leaves]
    · rw [goesOn_leaves]
      exact hmessages

theorem branchesFrom_handoff {maxTurns : Nat} (h : g.compile maxTurns = .ok G)
    (honly : OnlyHandoff g e) (ctx : Ctx) (d : PyDict) : branchesFrom G ctx e.source d = [] := by
  unfold branchesFrom
  rw [edgesFrom_handoff h honly]
  by_cases hlast : g.lastNode = some e.source
  · simp only [hlast, if_true]
  · simp only [hlast, if_false]

/-- The turn of the node goes on as the closing edge says, or as the handoff does. -/
theorem turn_transfers_iff {maxTurns : Nat} (h : g.compile maxTurns = .ok G)
    (honly : OnlyHandoff g e) {L : Loop G.schema} (hbus : L.ctx.hasBus = true) {node : GraphNode}
    {state : WorkflowState G.schema} {ctx : Ctx} (hcurrent : L.current.text = e.source)
    (hcompletes : Completes L node state ctx) {history : List Value}
    (hhistory : distillContext (messagesOf state.data) = .ok history) :
    (∃ t, (turn G env L).result = .ok t ∧ (goesOn t).1 = .node e.target ∧
        messagesOf (goesOn t).2 = .list history) ↔
      if g.lastNode = some e.source then
        node.interruptAfter = true ∧ e.target = Target.END.text ∧
          messagesOf state.data = .list history
      else ∃ s, StateTakes G.schema state.data e history s ∧
        messagesOf (if node.interruptAfter then state.data else s) = .list history := by
  have hedges := edgesFrom_handoff h honly
  have hpick : pickHandoff e.source state.data G.handoffEdges = .ok (some e) := by
    rw [(edges_of_compile h).2]
    exact pickHandoff_of_filter honly.only honly.unconditional state.data
  rw [← hcurrent] at hedges hpick ⊢
  by_cases hlast : g.lastNode = some L.current.text
  · rw [if_pos hlast] at hedges ⊢
    exact closing_turn_iff hedges hcompletes
  · rw [if_neg hlast] at hedges ⊢
    exact handoff_turn_iff hedges hpick honly.distills hbus hcompletes hhistory

/-- One turn hands over exactly where it can. -/
theorem transfers_iff {maxTurns : Nat} (h : g.compile maxTurns = .ok G) (honly : OnlyHandoff g e)
    {L : Loop G.schema} (hbus : L.ctx.hasBus = true) :
    Transfers G env e L ↔ CanTransfer g e L := by
  constructor
  · rintro ⟨halone, hpasses⟩
    refine ⟨?_, ?_⟩
    · intro node state ctx hcompletes b hb hsource
      have hcurrent : L.current.text = e.source :=
        halone (calls_iff.mpr ⟨node, hcompletes.found, hcompletes.starts,
          Or.inr ⟨state, ctx, hcompletes, b, hb, hsource⟩⟩)
      rw [hcurrent, branchesFrom_handoff h honly] at hb
      cases hb
    · intro node state ctx hcurrent hcompletes
      obtain ⟨t, history, ht, hhistory, hgoes⟩ := hpasses node state ctx hcurrent hcompletes
      have hmeets := (turn_transfers_iff h honly hbus hcurrent hcompletes hhistory).mp
        ⟨t, ht, hgoes⟩
      exact ⟨history, hhistory, hmeets⟩
  · rintro ⟨hbeside, hgoes⟩
    refine ⟨?_, ?_⟩
    · intro hcalled
      obtain ⟨node, -, -, hcurrent | ⟨state, ctx, hcompletes, b, hb, hsource⟩⟩ :=
        calls_iff.mp hcalled
      · exact hcurrent.symm
      · exact absurd hsource (hbeside node state ctx hcompletes b hb)
    · intro node state ctx hcurrent hcompletes
      obtain ⟨history, hhistory, htakes⟩ := hgoes node state ctx hcurrent hcompletes
      obtain ⟨t, ht, hgoes⟩ :=
        (turn_transfers_iff h honly hbus hcurrent hcompletes hhistory).mpr htakes
      exact ⟨t, history, ht, hhistory, hgoes⟩

/-! ## Over a run -/

theorem bus_step {L₀ L L' : Loop G.schema} {log : List Note}
    (h : (loopMachine G env L₀).step L log L') (hbus : L.ctx.hasBus = true) :
    L'.ctx.hasBus = true := by
  obtain ⟨node, ctx, r, -, -, -, hwalk, rfl⟩ := turn_next h.2.2
  obtain ⟨mode, rfl⟩ := walk_left hwalk
  exact hbus

/-- In a run of the loop, with the bus that `run` and `resume` give it, the handoff transfers
control and the distilled messages at every turn exactly where nothing stands in its way. -/
theorem handoff_transfers_iff {maxTurns : Nat} (h : g.compile maxTurns = .ok G)
    (honly : OnlyHandoff g e) {L₀ : Loop G.schema} (hbus : L₀.ctx.hasBus = true) :
    (∀ logs L, Run (loopMachine G env L₀) L₀ logs L → L.current ≠ .END →
        L.ctx.turnNumber < G.maxTurns → Transfers G env e L) ↔
      ∀ logs L, Run (loopMachine G env L₀) L₀ logs L → L.current ≠ .END →
        L.ctx.turnNumber < G.maxTurns → CanTransfer g e L := by
  have hkept : ∀ logs L, Run (loopMachine G env L₀) L₀ logs L → L.ctx.hasBus = true :=
    fun logs L hrun => hrun.invariant (I := fun L => L.ctx.hasBus = true)
      (fun _ _ _ hbus hstep => bus_step hstep hbus) hbus
  constructor
  · intro hall logs L hrun hend hlt
    exact (transfers_iff h honly (hkept logs L hrun)).mp (hall logs L hrun hend hlt)
  · intro hall logs L hrun hend hlt
    exact (transfers_iff h honly (hkept logs L hrun)).mpr (hall logs L hrun hend hlt)

/-! ## A desk that hands over -/

def toSpecialist : HandoffEdge := ⟨"triage", "specialist", none, true⟩

def talk : List Value := [.dict [("role", .str "user"), ("content", .str "My invoice is wrong.")]]

def triage : GraphNode :=
  .function (pureNode "triage" fun _ => Dict.ofList [("messages", .list talk)])

/-- A desk with a handoff, whose last call of the fluent API was `then(lastNode)`, if any. -/
def desk (lastNode : Option String) : WorkflowGraph where
  schema := none
  name := ""
  nodes := Dict.ofList [("triage", triage),
    ("specialist", .function (pureNode "specialist" fun _ => .empty))]
  edges := []
  handoffEdges := [toSpecialist]
  entryPoint := some "triage"
  lastNode
  parallelNodes := none

theorem onlyHandoff_desk (lastNode : Option String) : OnlyHandoff (desk lastNode) toSpecialist :=
  ⟨rfl, rfl, rfl, by simp [desk]⟩

/-- What `compile` makes of a desk. -/
def deskGraph (lastNode : Option String) : CompiledGraph where
  nodes := (desk lastNode).nodes
  edges := (desk lastNode).closingEdge
  entryPoint := "triage"
  schema := none
  maxTurns := 10
  name := ""
  handoffEdges := [toSpecialist]

theorem compile_desk (lastNode : Option String) :
    (desk lastNode).compile 10 = .ok (deskGraph lastNode) := rfl

/-- Where `run({})` starts. -/
def deskStart (lastNode : Option String) : Loop (deskGraph lastNode).schema :=
  runStart (deskGraph lastNode) (plainInput .empty) ⟨.empty, by simp [deskGraph]⟩

def talked : WorkflowState none := ⟨Dict.ofList [("messages", .list talk)], by simp⟩

theorem completes_desk (lastNode : Option String) : ∃ ctx,
    Completes (deskStart lastNode) triage talked ctx := ⟨_, rfl, rfl, rfl⟩

/-- Nothing stands in the way of the handoff of a desk without a last node. -/
theorem canTransfer_desk (L : Loop (deskGraph none).schema) :
    CanTransfer (desk none) toSpecialist L := by
  refine ⟨?_, ?_⟩
  · intro node state ctx _ b hb
    cases hb
  · intro node state ctx hcurrent hcompletes
    obtain ⟨hfound, -, hcompleted⟩ := hcompletes
    rw [hcurrent] at hfound hcompleted
    obtain rfl : triage = node := Option.some.inj hfound
    obtain ⟨hstate, -⟩ := Prod.mk.inj (Except.ok.inj hcompleted)
    have hmessages : messagesOf state.data = .list talk := by
      rw [← hstate]
      show ((Dict.set L.state.data "messages" (.list talk)).get? "messages").getD _ = _
      rw [Dict.get?_set_self]
      rfl
    refine ⟨distillMessages 500 3 talk, by rw [hmessages]; rfl, _, rfl, ?_⟩
    show ((Dict.set (Dict.set state.data "handoff_payload" _) "messages" _).get?
      "messages").getD _ = _
    rw [Dict.get?_set_self]
    rfl

/-- A desk that is built from nodes and a handoff passes the conversation on. -/
theorem a_desk_hands_over : ∃ t history,
    (turn (deskGraph none) inOrder (deskStart none)).result = .ok t ∧
      distillContext (.list talk) = .ok history ∧
      (goesOn t).1 = .node "specialist" ∧ messagesOf (goesOn t).2 = .list history := by
  have hstart : Transfers (deskGraph none) inOrder toSpecialist (deskStart none) :=
    (handoff_transfers_iff (compile_desk none) (onlyHandoff_desk none) rfl).mpr
      (fun _ L _ _ _ => canTransfer_desk L) [] _ (.stay _) (by decide) (by decide)
  obtain ⟨ctx, hcompletes⟩ := completes_desk none
  exact hstart.passes triage talked ctx rfl hcompletes

/-- The last node of a fluent graph keeps control: `compile` has closed it, and the run ends
there. -/
theorem a_last_node_does_not_hand_over :
    (desk (some "triage")).compile 10 = .ok (deskGraph (some "triage")) ∧
      OnlyHandoff (desk (some "triage")) toSpecialist ∧
      ¬ Transfers (deskGraph (some "triage")) inOrder toSpecialist (deskStart (some "triage")) ∧
      ranNodes (run (deskGraph (some "triage")) inOrder (plainInput .empty)).log = ["triage"] := by
  refine ⟨compile_desk _, onlyHandoff_desk _, ?_, rfl⟩
  intro h
  obtain ⟨ctx, hcompletes⟩ := completes_desk (some "triage")
  obtain ⟨t, history, ht, -, hgoes⟩ := h.passes triage talked ctx rfl hcompletes
  obtain ⟨hafter, -⟩ := (closing_turn_iff rfl hcompletes).mp ⟨t, ht, hgoes⟩
  cases hafter

end orchestra.handoffs
