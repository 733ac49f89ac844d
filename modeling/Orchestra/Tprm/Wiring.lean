-- `build_graph` always comes to a graph, and the graph is laid out as a chain of stages. So a run
-- of it makes of a state what the stages make of it, one after the other.
import Orchestra.Tprm.Graph

open dicts orchestra.state orchestra.edges orchestra.nodes orchestra.compiled orchestra.graph
open orchestra.runs orchestra.fluent orchestra.chains orchestra.visits
open orchestra.tprm.state orchestra.tprm.answers orchestra.tprm.routing orchestra.tprm.reports
open orchestra.tprm.stages orchestra.tprm.graph

namespace orchestra.tprm.wiring

/-! ## The graph as a chain -/

/-- The stages before the router. -/
def early (cfg : ModeConfig) (W : World) : List Stage :=
  match cfg.outputKind with
  | .doc => [.one (bootstrap W), .one (intake W), .one (vdrGate W)]
  | .sheet => [.one (bootstrap W), .one (intake W)]

/-- The stages after the coordinator. -/
def late (cfg : ModeConfig) (W : World) : List Stage :=
  match cfg.outputKind with
  | .doc => [.one (pmiPlanner W)]
  | .sheet => []

def middle (cfg : ModeConfig) (W : World) : List Stage :=
  [.one (router cfg W), .fan (cfg.active.map (specialist W)) (riskScore cfg W),
    .one (policy cfg), .one (remediation W), .one (coordinator cfg W)]

def stages (cfg : ModeConfig) (W : World) : List Stage := early cfg W ++ middle cfg W ++ late cfg W

/-- All shims, in the order of their calls of `add_node`. -/
def allShims (cfg : ModeConfig) (W : World) : List Shim :=
  match cfg.outputKind with
  | .doc => shims cfg W ++ [vdrGate W] ++ [pmiPlanner W]
  | .sheet => shims cfg W

def edgesOf (cfg : ModeConfig) : List GraphEdge :=
  let fan := [.parallel ⟨"router", (cfg.active.map Specialist.key).map .node,
      some (.node "risk_score")⟩, .plain "risk_score" (.node "policy"),
    .plain "policy" (.node "remediation"), .plain "remediation" (.node "coordinator")]
  match cfg.outputKind with
  | .doc => [.plain "bootstrap" (.node "intake"), .plain "intake" (.node "vdr_gate"),
      .plain "vdr_gate" (.node "router")] ++ fan ++
    [.plain "coordinator" (.node "pmi_planner"), .plain "pmi_planner" .END]
  | .sheet => [.plain "bootstrap" (.node "intake"), .plain "intake" (.node "router")] ++ fan ++
    [.plain "coordinator" .END]

/-- The graph of a mode. -/
def compiled (cfg : ModeConfig) (W : World) : CompiledGraph where
  nodes := Dict.empty.setAll (entriesOf ((allShims cfg W).map Shim.worker))
  edges := edgesOf cfg
  entryPoint := "bootstrap"
  schema := tprmClass
  maxTurns := 50
  name := ""
  handoffEdges := []

/-! ## The ids -/

/-- The ids that no specialist has. -/
def fixedIds : List String :=
  [START, "bootstrap", "intake", "router", "risk_score", "policy", "remediation", "coordinator",
    "vdr_gate", "pmi_planner"]

theorem key_not_fixed (s : Specialist) : s.key ∉ fixedIds := by cases s <;> decide

theorem active_sublist (cfg : ModeConfig) : cfg.active.Sublist Specialist.all :=
  List.filter_sublist

theorem keys_nodup (cfg : ModeConfig) : (cfg.active.map Specialist.key).Nodup := by
  apply List.Nodup.sublist ((active_sublist cfg).map Specialist.key)
  decide

theorem ids_shims (cfg : ModeConfig) (W : World) : (shims cfg W).map Shim.id =
    ["bootstrap", "intake", "router"] ++ (cfg.active.map Specialist.key ++
      ["risk_score", "policy", "remediation", "coordinator"]) := by
  have hkeys : (cfg.active.map (specialist W)).map Shim.id = cfg.active.map Specialist.key := by
    rw [List.map_map]
    rfl
  simp only [shims, List.map_append, hkeys, List.append_assoc]
  rfl

/-- The ids differ, and none of them is reserved. -/
theorem ids_nodup (cfg : ModeConfig) (W : World) :
    (START :: (allShims cfg W).map Shim.id).Nodup := by
  have hall : (START :: ((shims cfg W).map Shim.id ++ ["vdr_gate", "pmi_planner"])).Nodup := by
    have hperm : (START :: ((shims cfg W).map Shim.id ++ ["vdr_gate", "pmi_planner"])).Perm
        (fixedIds ++ cfg.active.map Specialist.key) := by
      rw [ids_shims, List.append_assoc, List.append_assoc]
      exact (List.perm_append_comm.append_left [START, "bootstrap", "intake", "router"])
    rw [hperm.nodup_iff, List.nodup_append]
    refine ⟨by decide, keys_nodup cfg, ?_⟩
    rintro id hid _ hkey rfl
    obtain ⟨s, -, rfl⟩ := List.mem_map.mp hkey
    exact key_not_fixed s hid
  unfold allShims
  cases cfg.outputKind with
  | doc =>
    rw [List.append_assoc, List.map_append]
    exact hall
  | sheet => exact hall.sublist ((List.sublist_append_left _ _).cons_cons START)

/-! ## The nodes -/

theorem addAll_new {g : WorkflowGraph} {ps : List Shim} (hnodup : (ps.map Shim.id).Nodup)
    (hnew : ∀ p ∈ ps, p.id ∉ g.nodes.keys) (hstart : START ∉ ps.map Shim.id) :
    addAll g ps = .ok (withNodes g (ps.map Shim.worker)) := by
  unfold addAll
  induction ps generalizing g with
  | nil => rfl
  | cons p rest ih =>
    rw [List.map_cons, List.nodup_cons] at hnodup
    have hadd : g.addNode p.id (.agent p.agentNode) (some p.outputKey) false false =
        .ok (g.withNode p.id p.node) := by
      unfold WorkflowGraph.addNode
      rw [if_neg (fun h => hstart (by simp [h])), if_neg (hnew p List.mem_cons_self)]
      rfl
    have hlater : ∀ q ∈ rest, q.id ∉ (g.withNode p.id p.node).nodes.keys := by
      intro q hq hmem
      rcases (Dict.mem_keys_set _ _ _ _).mp hmem with hmem | hmem
      · exact hnodup.1 (hmem ▸ List.mem_map_of_mem hq)
      · exact hnew q (List.mem_cons_of_mem _ hq) hmem
    rw [List.foldlM_cons, hadd]
    exact ih hnodup.2 hlater (fun h => hstart (List.mem_cons_of_mem _ h))

theorem keys_nodes {ps : List Shim} (hnodup : (ps.map Shim.id).Nodup) :
    (Dict.empty.setAll (entriesOf (ps.map Shim.worker))).keys = ps.map Shim.id := by
  have hfst : (entriesOf (ps.map Shim.worker)).map Prod.fst = ps.map Shim.id := by
    simp [entriesOf, Shim.worker]
  rw [Dict.keys_setAll _ (hfst ▸ hnodup), hfst]
  simp [Dict.empty, Dict.keys]

theorem set_snoc (ps : List Shim) (p : Shim) :
    (Dict.empty.setAll (entriesOf (ps.map Shim.worker))).set p.id p.node =
      Dict.empty.setAll (entriesOf ((ps ++ [p]).map Shim.worker)) := by
  simp [Dict.setAll, entriesOf, Shim.worker]

/-- One more shim, on a builder that has the nodes of others. -/
theorem addAll_one {g : WorkflowGraph} {ps : List Shim} {p : Shim}
    (hnodes : g.nodes = Dict.empty.setAll (entriesOf (ps.map Shim.worker)))
    (hnodup : ((ps ++ [p]).map Shim.id).Nodup) (hstart : p.id ≠ START) :
    addAll g [p] = .ok (g.withNode p.id p.node) := by
  rw [List.map_append, List.nodup_append] at hnodup
  have hnew : p.id ∉ g.nodes.keys := by
    rw [hnodes, keys_nodes hnodup.1]
    exact fun hmem => hnodup.2.2 _ hmem p.id (by simp) rfl
  rw [addAll_new (by simp) (by simpa using hnew) (by simpa using hstart.symm)]
  rfl

/-- What `build_graph` compiles. -/
def builder (cfg : ModeConfig) (W : World) : WorkflowGraph where
  schema := tprmClass
  name := ""
  nodes := Dict.empty.setAll (entriesOf ((allShims cfg W).map Shim.worker))
  edges := edgesOf cfg
  handoffEdges := []
  entryPoint := some "bootstrap"
  lastNode := none
  parallelNodes := none

theorem wired_eq (cfg : ModeConfig) (W : World) : wired cfg W = .ok (builder cfg W) := by
  have hids := ids_nodup cfg W
  rw [List.nodup_cons] at hids
  obtain ⟨hstart, hnodup⟩ := hids
  unfold wired builder edgesOf
  unfold allShims at hstart hnodup ⊢
  cases hkind : cfg.outputKind with
  | sheet =>
    simp only [hkind] at hstart hnodup
    rw [addAll_new hnodup (by simp [WorkflowGraph.new, Dict.empty, Dict.keys]) hstart, withNodes_eq]
    rfl
  | doc =>
    simp only [hkind] at hstart hnodup
    have hgated : ((shims cfg W ++ [vdrGate W]).map Shim.id).Nodup := by
      apply List.Nodup.sublist _ hnodup
      exact (List.sublist_append_left (shims cfg W ++ [vdrGate W]) [pmiPlanner W]).map Shim.id
    have hshims : ((shims cfg W).map Shim.id).Nodup := by
      apply List.Nodup.sublist _ hgated
      exact (List.sublist_append_left (shims cfg W) [vdrGate W]).map Shim.id
    have hfirst : addAll (WorkflowGraph.new tprmClass "") (shims cfg W) =
        .ok (withNodes (WorkflowGraph.new tprmClass "") ((shims cfg W).map Shim.worker)) := by
      apply addAll_new hshims
      · simp [WorkflowGraph.new, Dict.empty, Dict.keys]
      · exact fun h => hstart (by simp [h])
    rw [hfirst, withNodes_eq]
    simp only [bind, Except.bind]
    have hgate : (vdrGate W).id ≠ START := by simp [vdrGate, START]
    have hplanner : (pmiPlanner W).id ≠ START := by simp [pmiPlanner, START]
    rw [addAll_one rfl hgated hgate]
    simp only
    rw [addAll_one (set_snoc ..) hnodup hplanner]
    simp only [WorkflowGraph.withNode, WorkflowGraph.addEdge, WorkflowGraph.addParallel,
      WorkflowGraph.setEntryPoint, WorkflowGraph.new, set_snoc]
    rfl

/-! ## The check of the builder -/

theorem validateEdges_ok {nodes : List String} {edges : List GraphEdge}
    (h : ∀ e ∈ edges, validateEdge nodes e = .ok ()) : validateEdges nodes edges = .ok () := by
  induction edges with
  | nil => rfl
  | cons e rest ih =>
    unfold validateEdges
    rw [h e List.mem_cons_self]
    exact ih (fun e' he => h e' (List.mem_cons_of_mem _ he))

theorem validateEdge_plain {nodes : List String} {source target : String} (hs : source ∈ nodes)
    (ht : target ∈ nodes) : validateEdge nodes (.plain source (.node target)) = .ok () := by
  simp [validateEdge, validateTargets, validTarget, hs, ht]

theorem validateEdge_END {nodes : List String} {source : String} (hs : source ∈ nodes) :
    validateEdge nodes (.plain source .END) = .ok () := by
  simp [validateEdge, validateTargets, validTarget, hs]

theorem validateTargets_nodes {nodes ids : List String} {missing : String → CompileError}
    (h : ∀ id ∈ ids, id ∈ nodes) : validateTargets nodes missing (ids.map .node) = .ok () := by
  induction ids with
  | nil => rfl
  | cons id rest ih =>
    simp only [List.map_cons, validateTargets, validTarget, h id List.mem_cons_self]
    exact ih (fun id hid => h id (List.mem_cons_of_mem _ hid))

/-- The ids of a mode that writes a memo, and of one that writes a row. -/
theorem ids_allShims (cfg : ModeConfig) (W : World) : (allShims cfg W).map Shim.id =
    ["bootstrap", "intake", "router"] ++ (cfg.active.map Specialist.key ++
      ["risk_score", "policy", "remediation", "coordinator"]) ++
        (match cfg.outputKind with
        | .doc => ["vdr_gate", "pmi_planner"]
        | .sheet => []) := by
  unfold allShims
  cases cfg.outputKind with
  | doc =>
    rw [List.append_assoc, List.map_append, ids_shims]
    rfl
  | sheet => rw [ids_shims, List.append_nil]

theorem validateEdges_builder (cfg : ModeConfig) (W : World) :
    validateEdges ((allShims cfg W).map Shim.id) (edgesOf cfg) = .ok () := by
  have hids := ids_allShims cfg W
  have hkeys : ∀ id ∈ cfg.active.map Specialist.key, id ∈ (allShims cfg W).map Shim.id := by
    intro id hid
    rw [hids]
    exact List.mem_append_left _ (List.mem_append_right _ (List.mem_append_left _ hid))
  generalize (allShims cfg W).map Shim.id = ids at hids hkeys ⊢
  have hrouter : "router" ∈ ids := by simp [hids]
  have hfan : validateEdge ids (.parallel ⟨"router", (cfg.active.map Specialist.key).map .node,
      some (.node "risk_score")⟩) = .ok () := by
    simp only [validateEdge, hrouter, if_true]
    exact validateTargets_nodes hkeys
  apply validateEdges_ok
  intro e he
  unfold edgesOf at he
  cases hkind : cfg.outputKind <;> simp only [hkind] at hids he <;>
    simp only [List.mem_append, List.mem_cons, List.not_mem_nil, or_false] at he
  · rcases he with ((rfl | rfl) | rfl | rfl | rfl | rfl) | rfl
    iterate 2 exact validateEdge_plain (by simp [hids]) (by simp [hids])
    · exact hfan
    iterate 3 exact validateEdge_plain (by simp [hids]) (by simp [hids])
    · exact validateEdge_END (by simp [hids])
  · rcases he with ((rfl | rfl | rfl) | rfl | rfl | rfl | rfl) | rfl | rfl
    iterate 3 exact validateEdge_plain (by simp [hids]) (by simp [hids])
    · exact hfan
    iterate 4 exact validateEdge_plain (by simp [hids]) (by simp [hids])
    · exact validateEdge_END (by simp [hids])

theorem buildGraph_eq (cfg : ModeConfig) (W : World) :
    buildGraph cfg W = .ok (compiled cfg W) := by
  have hkeys : (builder cfg W).nodes.keys = (allShims cfg W).map Shim.id :=
    keys_nodes (List.nodup_cons.mp (ids_nodup cfg W)).2
  have hbootstrap : "bootstrap" ∈ (allShims cfg W).map Shim.id := by simp [ids_allShims]
  have hvalid : (builder cfg W).validate = .ok () := by
    unfold WorkflowGraph.validate
    rw [hkeys, if_neg (by simp [ids_allShims])]
    show (if "bootstrap" = "" then _ else if "bootstrap" ∉ _ then _ else _) = _
    rw [if_neg (by decide), if_neg (not_not.mpr hbootstrap)]
    exact validateEdges_builder cfg W
  unfold buildGraph WorkflowGraph.compile
  rw [wired_eq]
  simp only [Except.mapError, bind, Except.bind, hvalid]
  simp [compiled, builder, WorkflowGraph.closingEdge]

/-! ## The layout -/

/-- The way out of every step of a chain. -/
def Exits (G : CompiledGraph) : List Step → Prop
  | [] => True
  | s :: rest => G.edgesFrom s.main.id = s.exits rest ∧ Exits G rest

theorem Exits.at {G : CompiledGraph} {steps pre rest : List Step} {s : Step} (h : Exits G steps)
    (hsteps : steps = pre ++ s :: rest) : G.edgesFrom s.main.id = s.exits rest := by
  induction pre generalizing steps with
  | nil =>
    subst hsteps
    exact h.1
  | cons t later ih =>
    subst hsteps
    exact ih h.2 rfl

/-- The edges out of a node. -/
theorem edgesFrom_compiled (cfg : ModeConfig) (W : World) (id : String) :
    (compiled cfg W).edgesFrom id = (edgesOf cfg).filter (fun e => e.source = id) := rfl

theorem exits_stages (cfg : ModeConfig) (W : World) :
    Exits (compiled cfg W) ((stages cfg W).map Stage.step) := by
  unfold stages early middle late
  cases hkind : cfg.outputKind <;>
    simp [Exits, Step.exits, Step.main, Step.edgeFrom, Step.ownEdges, Step.isLoop, Stage.step,
      edgesFrom_compiled, edgesOf, hkind, Shim.worker, GraphEdge.source, bootstrap, intake, router,
      riskScore, policy, remediation, coordinator, vdrGate, pmiPlanner, specialist]

theorem workers_stages (cfg : ModeConfig) (W : World) :
    ∀ w ∈ workersOf ((stages cfg W).map Stage.step), w ∈ (allShims cfg W).map Shim.worker := by
  unfold stages early middle late allShims shims
  intro w hw
  cases hkind : cfg.outputKind <;>
    simp only [hkind, workersOf, List.cons_append, List.nil_append, List.map_cons, List.map_nil,
      List.flatMap_cons, List.flatMap_nil, List.mem_append, List.mem_cons, List.map_append,
      Stage.step, Step.workers, Step.branches, Step.main, List.not_mem_nil, or_false] at hw ⊢ <;>
    tauto

theorem branches_stages (cfg : ModeConfig) (W : World) :
    branchIds ((stages cfg W).map Stage.step) = cfg.active.map Specialist.key := by
  unfold stages early middle late branchIds
  cases hkind : cfg.outputKind <;>
    simp [Stage.step, Step.branches, Shim.worker, specialist]

/-- No edge goes out of a specialist: the fan-out joins them. -/
theorem source_edgesOf (cfg : ModeConfig) : ∀ e ∈ edgesOf cfg, e.source ∈ fixedIds := by
  intro e he
  unfold edgesOf at he
  cases hkind : cfg.outputKind <;>
    simp only [hkind, List.mem_append, List.mem_cons, List.not_mem_nil, or_false] at he
  · rcases he with ((rfl | rfl) | rfl | rfl | rfl | rfl) | rfl <;>
      simp [GraphEdge.source, fixedIds]
  · rcases he with ((rfl | rfl | rfl) | rfl | rfl | rfl | rfl) | rfl | rfl <;>
      simp [GraphEdge.source, fixedIds]

theorem layout (cfg : ModeConfig) (W : World) :
    Layout ((stages cfg W).map Stage.step) (compiled cfg W) := by
  have hids : (((allShims cfg W).map Shim.worker).map (·.id)).Nodup := by
    rw [List.map_map]
    exact (List.nodup_cons.mp (ids_nodup cfg W)).2
  refine ⟨?_, ?_, rfl, fun _ _ _ hsteps => (exits_stages cfg W).at hsteps, ?_⟩
  · unfold stages early
    cases hkind : cfg.outputKind <;> rfl
  · intro w hw
    exact get?_entries hids (workers_stages cfg W w hw)
  · intro id hid
    rw [branches_stages] at hid
    obtain ⟨s, -, rfl⟩ := List.mem_map.mp hid
    rw [edgesFrom_compiled, List.filter_eq_nil_iff]
    intro e he
    simp only [decide_eq_true_eq]
    intro heq
    exact key_not_fixed s (heq ▸ source_edgesOf cfg e he)

end orchestra.tprm.wiring
