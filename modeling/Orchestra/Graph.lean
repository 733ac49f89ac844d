-- The builder of a graph (`graph.py`): what it has gathered, how `compile`
-- checks it, and what every graph that passes the check has.
import Orchestra.Compiled

open dicts orchestra.state orchestra.edges orchestra.nodes orchestra.compiled

namespace orchestra.graph

/-! ## The builder -/

/-- A `WorkflowGraph`, after any calls of its methods. -/
structure WorkflowGraph where
  schema : Option Schema
  name : String
  nodes : Dict String GraphNode
  edges : List GraphEdge
  handoffEdges : List HandoffEdge
  entryPoint : Option String
  lastNode : Option String
  parallelNodes : Option (List String)

/-- What `_validate` rejects. Each is a `GraphCompileError`. -/
inductive CompileError
  | noNodes
  | noEntryPoint
  | entryPointMissing (entryPoint : String) (available : List String)
  | edgeSourceMissing (source : String)
  | edgeTargetMissing (target : String)
  | conditionalSourceMissing (source : String)
  | conditionalTargetMissing (target : String)
  | parallelSourceMissing (source : String)
  | parallelTargetMissing (target : String)
deriving DecidableEq, Repr

/-- `str(exc)` -/
def CompileError.message : CompileError → String
  | noNodes =>
    "Graph has no nodes.\n  Fix: Add at least one node with .add_node() or .then()."
  | noEntryPoint =>
    "No entry point set.\n  Fix: Call set_entry_point() or use the fluent API (.then())."
  | entryPointMissing entryPoint available =>
    "Entry point '" ++ entryPoint ++ "' does not exist in nodes.\n  Available nodes: " ++
      listText available ++ "\n  Fix: Use an existing node name as entry point."
  | edgeSourceMissing source =>
    "Edge source '" ++ source ++ "' not found in nodes.\n  Fix: Add a node named '" ++ source ++
      "' or fix the edge."
  | edgeTargetMissing target =>
    "Edge target '" ++ target ++ "' not found in nodes.\n  Fix: Add a node named '" ++ target ++
      "' or use END."
  | conditionalSourceMissing source =>
    "Conditional edge source '" ++ source ++ "' not found.\n  Fix: Add a node named '" ++
      source ++ "'."
  | conditionalTargetMissing target =>
    "Conditional edge target '" ++ target ++ "' not found.\n  Fix: Add a node named '" ++
      target ++ "' or use END."
  | parallelSourceMissing source =>
    "Parallel edge source '" ++ source ++ "' not found.\n  Fix: Add a node named '" ++ source ++
      "'."
  | parallelTargetMissing target =>
    "Parallel target '" ++ target ++ "' not found.\n  Fix: Add a node named '" ++ target ++ "'."

/-! ## The check -/

/-- `target in valid_targets`: END, or the id of a node. -/
def validTarget (nodes : List String) : Target → Bool
  | .END => true
  | .node id => id ∈ nodes

/-- The loop over targets, with the error for the first one that is missing. -/
def validateTargets (nodes : List String) (missing : String → CompileError) :
    List Target → Except CompileError Unit
  | [] => .ok ()
  | target :: rest =>
    if validTarget nodes target then validateTargets nodes missing rest
    else .error (missing target.text)

/-- The checks of one edge. The join node of a parallel edge is not checked. -/
def validateEdge (nodes : List String) : GraphEdge → Except CompileError Unit
  | .plain source target =>
    if source ∈ nodes then validateTargets nodes .edgeTargetMissing [target]
    else .error (.edgeSourceMissing source)
  | .conditional e =>
    if e.source ∈ nodes then
      match e.pathMap with
      | some paths =>
        validateTargets nodes .conditionalTargetMissing (paths.entries.map (·.2))
      | none => .ok ()
    else .error (.conditionalSourceMissing e.source)
  | .parallel e =>
    if e.source ∈ nodes then validateTargets nodes .parallelTargetMissing e.targets
    else .error (.parallelSourceMissing e.source)

def validateEdges (nodes : List String) : List GraphEdge → Except CompileError Unit
  | [] => .ok ()
  | e :: rest =>
    match validateEdge nodes e with
    | .ok () => validateEdges nodes rest
    | .error error => .error error

/-- `_validate`. The handoff edges are not checked. -/
def WorkflowGraph.validate (g : WorkflowGraph) : Except CompileError Unit :=
  if g.nodes.keys.isEmpty then .error .noNodes
  else
    match g.entryPoint with
    | none => .error .noEntryPoint
    | some entryPoint =>
      if entryPoint = "" then .error .noEntryPoint
      else if entryPoint ∉ g.nodes.keys then
        .error (.entryPointMissing entryPoint g.nodes.keys)
      else validateEdges g.nodes.keys g.edges

/-- The edge to END that `compile` adds when the last node of the fluent API
has no way out. -/
def WorkflowGraph.closingEdge (g : WorkflowGraph) : List GraphEdge :=
  match g.lastNode with
  | none => []
  | some last => if g.edges.any (fun e => e.source = last) then [] else [.plain last .END]

/-- `compile` -/
def WorkflowGraph.compile (g : WorkflowGraph) (maxTurns : Nat) :
    Except CompileError CompiledGraph :=
  match g.validate with
  | .error e => .error e
  | .ok () => .ok {
      nodes := g.nodes
      edges := g.edges ++ g.closingEdge
      entryPoint := g.entryPoint.getD ""
      schema := g.schema
      maxTurns
      name := g.name
      handoffEdges := g.handoffEdges }

/-! ## The edge to END -/

theorem closingEdge_eq (g : WorkflowGraph) : g.closingEdge = [] ∨
    ∃ l, g.lastNode = some l ∧ g.closingEdge = [.plain l .END] ∧
      g.edges.any (fun e => e.source = l) = false := by
  unfold WorkflowGraph.closingEdge
  cases g.lastNode with
  | none => exact .inl rfl
  | some l =>
    dsimp only
    split
    · exact .inl rfl
    · rename_i hany
      exact .inr ⟨l, rfl, rfl, eq_false_of_ne_true hany⟩

/-- An edge of the last node is a way out. -/
theorem closingEdge_of_mem {g : WorkflowGraph} {e : GraphEdge} (he : e ∈ g.edges)
    (hlast : ∀ l, g.lastNode = some l → e.source = l) : g.closingEdge = [] := by
  rcases closingEdge_eq g with hnil | ⟨l, hsome, -, hnone⟩
  · exact hnil
  · rw [List.any_eq_false] at hnone
    exact absurd (decide_eq_true (hlast l hsome)) (hnone e he)

theorem edges_of_compile {g : WorkflowGraph} {maxTurns : Nat} {G : CompiledGraph}
    (h : g.compile maxTurns = .ok G) :
    G.edges = g.edges ++ g.closingEdge ∧ G.handoffEdges = g.handoffEdges := by
  unfold WorkflowGraph.compile at h
  split at h
  · cases h
  · cases h
    exact ⟨rfl, rfl⟩

/-! ## What passes the check -/

/-- END, or a node of the graph. -/
def Known (G : CompiledGraph) : Target → Prop
  | .END => True
  | .node id => id ∈ G.nodes.keys

/-- The targets of an edge that the check looks at. -/
def checkedTargets : GraphEdge → List Target
  | .plain _ target => [target]
  | .conditional e => e.pathMap.elim [] (fun paths => paths.entries.map (·.2))
  | .parallel e => e.targets

/-- A graph that passed the check. -/
structure Checked (G : CompiledGraph) : Prop where
  entry : G.entryPoint ∈ G.nodes.keys
  targets : ∀ e ∈ G.edges, ∀ t ∈ checkedTargets e, Known G t

theorem validateTargets_ok {nodes : List String} {missing : String → CompileError}
    {targets : List Target} (h : validateTargets nodes missing targets = .ok ()) :
    ∀ t ∈ targets, validTarget nodes t = true := by
  induction targets with
  | nil => simp
  | cons t rest ih =>
    unfold validateTargets at h
    split at h
    · rename_i ht
      intro u hu
      rcases List.mem_cons.mp hu with rfl | hu
      · exact ht
      · exact ih h u hu
    · cases h

theorem validateEdge_ok {nodes : List String} {e : GraphEdge}
    (h : validateEdge nodes e = .ok ()) : ∀ t ∈ checkedTargets e, validTarget nodes t = true := by
  cases e with
  | plain source target =>
    simp only [validateEdge] at h
    split at h
    · exact validateTargets_ok h
    · cases h
  | conditional e =>
    simp only [validateEdge] at h
    split at h
    · rcases hp : e.pathMap with _ | paths
      · simp [checkedTargets, hp]
      · rw [hp] at h
        simp only [checkedTargets, hp]
        exact validateTargets_ok h
    · cases h
  | parallel e =>
    simp only [validateEdge] at h
    split at h
    · exact validateTargets_ok h
    · cases h

theorem validateEdges_ok {nodes : List String} {edges : List GraphEdge}
    (h : validateEdges nodes edges = .ok ()) :
    ∀ e ∈ edges, ∀ t ∈ checkedTargets e, validTarget nodes t = true := by
  induction edges with
  | nil => simp
  | cons e rest ih =>
    unfold validateEdges at h
    split at h
    · rename_i he
      intro f hf
      rcases List.mem_cons.mp hf with rfl | hf
      · exact validateEdge_ok he
      · exact ih h f hf
    · cases h

theorem validate_ok {g : WorkflowGraph} (h : g.validate = .ok ()) :
    ∃ entryPoint, g.entryPoint = some entryPoint ∧ entryPoint ∈ g.nodes.keys ∧
      validateEdges g.nodes.keys g.edges = .ok () := by
  unfold WorkflowGraph.validate at h
  split at h
  · cases h
  rcases he : g.entryPoint with _ | entryPoint
  · rw [he] at h
    cases h
  · simp only [he] at h
    split at h
    · cases h
    split at h
    · cases h
    · rename_i hmem
      exact ⟨entryPoint, rfl, not_not.mp hmem, h⟩

theorem known_of_valid {G : CompiledGraph} {t : Target} (h : validTarget G.nodes.keys t = true) :
    Known G t := by
  cases t with
  | END => trivial
  | node id =>
    simp only [validTarget, decide_eq_true_eq] at h
    exact h

/-- Whatever the builder was told, a graph that compiles is a checked graph. -/
theorem compile_checked {g : WorkflowGraph} {maxTurns : Nat} {G : CompiledGraph}
    (h : g.compile maxTurns = .ok G) : Checked G := by
  unfold WorkflowGraph.compile at h
  split at h
  · cases h
  · rename_i hv
    cases h
    obtain ⟨entryPoint, he, hmem, hedges⟩ := validate_ok hv
    refine ⟨by simpa [he] using hmem, ?_⟩
    intro e hin t ht
    rcases List.mem_append.mp hin with hin | hin
    · exact known_of_valid (validateEdges_ok hedges e hin t ht)
    · rcases closingEdge_eq g with hnil | ⟨l, -, hclosing, -⟩
      · rw [hnil] at hin
        cases hin
      · rw [hclosing, List.mem_singleton] at hin
        subst hin
        rw [checkedTargets, List.mem_singleton] at ht
        subst ht
        trivial

end orchestra.graph
