-- The fluent API of the builder (`graph.py`): `then`, `parallel`, `join` and `loop`, and the
-- nodes and the edges that a chain of them leaves in the graph.
import Orchestra.Graph

open dicts orchestra.state orchestra.edges orchestra.nodes orchestra.compiled orchestra.graph

namespace orchestra.graph

/-! ## The methods of the builder -/

/-- What the methods reject. Each is a `GraphCompileError`. -/
inductive BuildError
  | reserved (nodeId : String)
  | alreadyExists (nodeId : String)
  | parallelAgain
  | joinAlone
deriving DecidableEq, Repr

/-- `str(exc)` -/
def BuildError.message : BuildError → String
  | reserved nodeId =>
    "'" ++ nodeId ++ "' is a reserved node ID.\n  Fix: Choose a different name for your node."
  | alreadyExists nodeId =>
    "Node '" ++ nodeId ++ "' already exists.\n  Fix: Use a unique name for each node."
  | parallelAgain =>
    "Cannot call .parallel() again before calling .join().\n" ++
      "  Fix: Call .join(joiner) to merge the previous parallel group first."
  | joinAlone =>
    "Cannot join without a preceding .parallel() call.\n" ++
      "  Fix: Call .parallel(agent_a, agent_b) before .join(joiner)."

def START : String := "__start__"

/-- `_wrap_as_node` on a node. An agent or a function stands for the node that it becomes. -/
def wrapAsNode (interruptBefore interruptAfter : Bool) : GraphNode → GraphNode
  | .agent n => .agent { n with
      interruptBefore := interruptBefore || n.interruptBefore
      interruptAfter := interruptAfter || n.interruptAfter }
  | .function n => .function { n with
      interruptBefore := interruptBefore || n.interruptBefore
      interruptAfter := interruptAfter || n.interruptAfter }
  | .subgraph n => .subgraph { n with
      interruptBefore := interruptBefore || n.interruptBefore
      interruptAfter := interruptAfter || n.interruptAfter }

/-- An agent node with an `output_key` is built anew, without its flags. -/
def withOutputKey (outputKey : Option String) : GraphNode → GraphNode
  | .agent n =>
    if outputKey.getD "" = "" then .agent n
    else .agent { n with
      outputKey
      interruptBefore := false
      interruptAfter := false }
  | node => node

namespace WorkflowGraph

/-- `WorkflowGraph(state_schema, name)` -/
def new (schema : Option Schema) (name : String) : WorkflowGraph where
  schema
  name
  nodes := .empty
  edges := []
  handoffEdges := []
  entryPoint := none
  lastNode := none
  parallelNodes := none

/-- A node under its id. The first one is the entry point. -/
def withNode (g : WorkflowGraph) (nodeId : String) (node : GraphNode) : WorkflowGraph :=
  { g with
    nodes := g.nodes.set nodeId node
    entryPoint := g.entryPoint.or (some nodeId) }

/-- `add_node`. No string is equal to the sentinel END. -/
def addNode (g : WorkflowGraph) (nodeId : String) (node : GraphNode) (outputKey : Option String)
    (interruptBefore interruptAfter : Bool) : Except BuildError WorkflowGraph :=
  if nodeId = START then .error (.reserved nodeId)
  else if nodeId ∈ g.nodes.keys then .error (.alreadyExists nodeId)
  else .ok (g.withNode nodeId
    (withOutputKey outputKey (wrapAsNode interruptBefore interruptAfter node)))

def addEdge (g : WorkflowGraph) (source : String) (target : Target) : WorkflowGraph :=
  { g with edges := g.edges ++ [.plain source target] }

def addConditionalEdge (g : WorkflowGraph) (source : String)
    (condition : PyDict → Counters → Except Raised (Routed × Counters))
    (pathMap : Option (Dict String Target)) : WorkflowGraph :=
  { g with edges := g.edges ++ [.conditional ⟨source, condition, pathMap⟩] }

def addParallel (g : WorkflowGraph) (source : String) (targets : List String)
    (joinNode : Option Target) : WorkflowGraph :=
  { g with edges := g.edges ++ [.parallel ⟨source, targets.map .node, joinNode⟩] }

def setEntryPoint (g : WorkflowGraph) (nodeId : String) : WorkflowGraph :=
  { g with entryPoint := some nodeId }

/-- `then` -/
def thenNode (g : WorkflowGraph) (nodeId : String) (node : GraphNode)
    (interruptBefore interruptAfter : Bool) : Except BuildError WorkflowGraph := do
  let g ← g.addNode nodeId node none interruptBefore interruptAfter
  let g := match g.lastNode with
    | some last => g.addEdge last (.node nodeId)
    | none => g
  .ok { g with lastNode := some nodeId }

/-- The loop of `parallel` over its items, from the index `i` on. A name that is taken gets
the index as a suffix. -/
def addItems : WorkflowGraph → Nat → List (String × GraphNode) →
    Except BuildError (WorkflowGraph × List String)
  | g, _, [] => .ok (g, [])
  | g, i, (name, node) :: rest => do
    let nodeId := if name ∈ g.nodes.keys then name ++ "_" ++ toString i else name
    let g ← g.addNode nodeId node none false false
    let (g, names) ← g.addItems (i + 1) rest
    .ok (g, nodeId :: names)

def parallel (g : WorkflowGraph) (items : List (String × GraphNode)) :
    Except BuildError WorkflowGraph := do
  let (g, names) ← g.addItems 0 items
  match g.parallelNodes with
  | some _ => .error .parallelAgain
  | none =>
    let edges := match g.lastNode with
      | some last => g.edges ++ [.parallel ⟨last, names.map .node, none⟩]
      | none => g.edges
    .ok { g with edges, parallelNodes := some names, lastNode := none }

/-- The first parallel edge with these targets that has no join node gets one. -/
def joinEdges (targets : List Target) (joinNode : Target) : List GraphEdge → List GraphEdge
  | [] => []
  | .parallel e :: rest =>
    if e.targets = targets ∧ e.joinNode = none then
      .parallel ⟨e.source, e.targets, some joinNode⟩ :: rest
    else .parallel e :: joinEdges targets joinNode rest
  | edge :: rest => edge :: joinEdges targets joinNode rest

def join (g : WorkflowGraph) (nodeId : String) (node : GraphNode) :
    Except BuildError WorkflowGraph :=
  match g.parallelNodes with
  | none => .error .joinAlone
  | some names => do
    let g ← g.addNode nodeId node none false false
    .ok { g with
      edges := joinEdges (names.map .node) (.node nodeId) g.edges
      parallelNodes := none
      lastNode := some nodeId }

/-- `_loop_condition`. It counts in the counters of the run, which the state shows it. -/
def loopCondition (nodeId : String) (condition : PyDict → Except Raised Bool)
    (maxIterations : Int) (state : PyDict) (counters : Counters) :
    Except Raised (Routed × Counters) :=
  let loopId := "__loop_" ++ nodeId
  let count := (counters.get? loopId).getD 0 + 1
  let counted : Counters := counters.set loopId count
  if maxIterations ≤ count then .ok (.END, counted.erase loopId)
  else
    match condition (state.set loopCountersKey counted.value) with
    | .error e => .error e
    | .ok true => .ok (.str nodeId, counted)
    | .ok false => .ok (.END, counted.erase loopId)

def loop (g : WorkflowGraph) (nodeId : String) (node : GraphNode)
    (condition : PyDict → Except Raised Bool) (maxIterations : Int) :
    Except BuildError WorkflowGraph := do
  let g ← if nodeId ∈ g.nodes.keys then .ok g else g.addNode nodeId node none false false
  let g := match g.lastNode with
    | some last => if last ≠ nodeId then g.addEdge last (.node nodeId) else g
    | none => g
  .ok { g.addConditionalEdge nodeId (loopCondition nodeId condition maxIterations) none with
    lastNode := some nodeId }

end WorkflowGraph

end orchestra.graph

namespace orchestra.fluent

/-! ## Chains -/

/-- A node under its name, which asks for no pause. -/
structure Worker where
  id : String
  node : GraphNode
  steady : node.interruptBefore = false ∧ node.interruptAfter = false

/-- A step of a chain: `then(n)`, `loop(n, condition, max_iterations)`, or `parallel(..)` with
its `join(n)`. -/
inductive Step
  | single (w : Worker)
  | loop (w : Worker) (condition : PyDict → Except Raised Bool) (maxIterations : Nat)
    (positive : 1 ≤ maxIterations)
  | parallel (branches : List Worker) (join : Worker)

namespace Step

/-- The node of the step that the run itself goes to. -/
def main : Step → Worker
  | .single w => w
  | .loop w .. => w
  | .parallel _ join => join

def branches : Step → List Worker
  | .parallel branches _ => branches
  | _ => []

def isLoop : Step → Bool
  | .loop .. => true
  | _ => false

/-- The turns that a step takes at most. -/
def turns : Step → Nat
  | .loop _ _ maxIterations _ => maxIterations
  | _ => 1

/-- The nodes of a step, in the order in which it adds them. -/
def workers (s : Step) : List Worker := s.branches ++ [s.main]

/-- The calls of a step. -/
def call (g : WorkflowGraph) : Step → Except BuildError WorkflowGraph
  | .single w => g.thenNode w.id w.node false false
  | .loop w condition maxIterations _ => g.loop w.id w.node condition maxIterations
  | .parallel branches join => do
    let g ← g.parallel (branches.map (fun b => (b.id, b.node)))
    g.join join.id join.node

end Step

/-- The calls of a chain, one after the other, on a new builder. -/
def build (schema : Option Schema) (name : String) (steps : List Step) :
    Except BuildError WorkflowGraph :=
  steps.foldlM Step.call (WorkflowGraph.new schema name)

def workersOf (steps : List Step) : List Worker := steps.flatMap Step.workers

/-- The names in a chain. -/
def idsOf (steps : List Step) : List String := (workersOf steps).map (·.id)

/-! ## What a chain lays out -/

namespace Step

/-- The edge into a step, from the main node of the step before. -/
def edgeFrom (s : Step) (source : String) : GraphEdge :=
  match s with
  | .single w => .plain source (.node w.id)
  | .loop w .. => .plain source (.node w.id)
  | .parallel branches join =>
    .parallel ⟨source, branches.map (fun b => .node b.id), some (.node join.id)⟩

/-- The edges that a step has at its own node. -/
def ownEdges : Step → List GraphEdge
  | .loop w condition maxIterations _ =>
    [.conditional ⟨w.id, WorkflowGraph.loopCondition w.id condition maxIterations, none⟩]
  | _ => []

end Step

def edgesAfter : Option String → List Step → List GraphEdge
  | _, [] => []
  | last, s :: rest =>
    last.toList.map s.edgeFrom ++ s.ownEdges ++ edgesAfter (some s.main.id) rest

def lastAfter (last : Option String) (steps : List Step) : Option String :=
  steps.foldl (fun _ s => some s.main.id) last

def withNodes (g : WorkflowGraph) (ws : List Worker) : WorkflowGraph :=
  ws.foldl (fun g w => g.withNode w.id w.node) g

def entriesOf (ws : List Worker) : List (String × GraphNode) := ws.map (fun w => (w.id, w.node))

/-- The builder after the calls of a chain. -/
def laid (g : WorkflowGraph) (steps : List Step) : WorkflowGraph :=
  { g with
    nodes := g.nodes.setAll (entriesOf (workersOf steps))
    edges := g.edges ++ edgesAfter g.lastNode steps
    entryPoint := g.entryPoint.or ((workersOf steps).head?.map (·.id))
    lastNode := lastAfter g.lastNode steps
    parallelNodes := none }

theorem withNodes_eq (g : WorkflowGraph) (ws : List Worker) : withNodes g ws =
    { g with
      nodes := g.nodes.setAll (entriesOf ws)
      entryPoint := g.entryPoint.or (ws.head?.map (·.id)) } := by
  unfold withNodes
  induction ws generalizing g with
  | nil => simp [entriesOf, Dict.setAll]
  | cons w rest ih =>
    rw [List.foldl_cons, ih]
    simp [entriesOf, Dict.setAll, WorkflowGraph.withNode]

/-- One step adds its nodes, and then its edges. -/
theorem laid_step (g : WorkflowGraph) (s : Step) : laid g [s] =
    { (withNodes g s.branches).withNode s.main.id s.main.node with
      edges := g.edges ++ (g.lastNode.toList.map s.edgeFrom ++ s.ownEdges)
      lastNode := some s.main.id
      parallelNodes := none } := by
  have hworkers : withNodes g s.workers =
      (withNodes g s.branches).withNode s.main.id s.main.node := List.foldl_append
  rw [← hworkers, withNodes_eq]
  simp [laid, workersOf, edgesAfter, lastAfter]

/-- The nodes of a chain come after the nodes of its first step. -/
theorem laid_cons (g : WorkflowGraph) (s : Step) (rest : List Step) :
    laid (laid g [s]) rest = laid g (s :: rest) := by
  have hworkers : workersOf [s] = s.workers := by simp [workersOf]
  have hhead : s.workers.head?.or (workersOf rest).head? = (workersOf (s :: rest)).head? := by
    rw [← List.head?_append]
    rfl
  unfold laid
  simp only [hworkers, Option.or_assoc, List.append_assoc, ← Option.map_or, hhead]
  congr 1
  · simp only [Dict.setAll, ← List.foldl_append, entriesOf, ← List.map_append]
    rfl
  · simp only [edgesAfter, List.append_nil]
    rfl

/-- A builder between two steps. -/
structure Idle (g : WorkflowGraph) : Prop where
  noParallel : g.parallelNodes = none
  joined : ∀ e, .parallel e ∈ g.edges → e.joinNode ≠ none
  last : ∀ last, g.lastNode = some last → last ∈ g.nodes.keys

theorem addNode_ok {g g' : WorkflowGraph} {w : Worker}
    (h : g.addNode w.id w.node none false false = .ok g') : g' = g.withNode w.id w.node := by
  have hnode : withOutputKey none (wrapAsNode false false w.node) = w.node := by
    cases w.node <;> rfl
  unfold WorkflowGraph.addNode at h
  split at h
  · cases h
  · split at h
    · cases h
    · rw [hnode] at h
      cases h
      rfl

theorem addItems_ok {g g' : WorkflowGraph} {i : Nat} {ws : List Worker} {names : List String}
    (hfresh : ∀ w ∈ ws, w.id ∉ g.nodes.keys) (hnodup : (ws.map (·.id)).Nodup)
    (h : g.addItems i (ws.map (fun w => (w.id, w.node))) = .ok (g', names)) :
    g' = withNodes g ws ∧ names = ws.map (·.id) := by
  induction ws generalizing g i names with
  | nil =>
    cases h
    exact ⟨rfl, rfl⟩
  | cons w rest ih =>
    rw [List.map_cons, List.nodup_cons] at hnodup
    have hw : w.id ∉ g.nodes.keys := hfresh w List.mem_cons_self
    simp only [List.map_cons, WorkflowGraph.addItems, if_neg hw] at h
    rcases hadd : g.addNode w.id w.node none false false with error | g₁
    · rw [hadd] at h
      cases h
    · rw [hadd] at h
      rcases hrest : g₁.addItems (i + 1) (rest.map (fun w => (w.id, w.node))) with
        error | ⟨g₂, others⟩
      · simp only [hrest, bind, Except.bind] at h
        cases h
      · simp only [hrest, bind, Except.bind] at h
        cases h
        obtain rfl := addNode_ok hadd
        have hlater : ∀ v ∈ rest, v.id ∉ (g.withNode w.id w.node).nodes.keys := by
          intro v hv hmem
          rcases (Dict.mem_keys_set g.nodes w.id v.id w.node).mp hmem with heq | hmem
          · exact hnodup.1 (heq ▸ List.mem_map_of_mem hv)
          · exact hfresh v (List.mem_cons_of_mem _ hv) hmem
        obtain ⟨rfl, rfl⟩ := ih hlater hnodup.2 hrest
        exact ⟨rfl, rfl⟩

theorem joinEdges_joined {targets : List Target} {joinNode : Target} {edges : List GraphEdge}
    (h : ∀ e, .parallel e ∈ edges → e.joinNode ≠ none) (more : List GraphEdge) :
    WorkflowGraph.joinEdges targets joinNode (edges ++ more) =
      edges ++ WorkflowGraph.joinEdges targets joinNode more := by
  induction edges with
  | nil => rfl
  | cons edge rest ih =>
    have hrest := ih (fun e he => h e (List.mem_cons_of_mem _ he))
    cases edge with
    | parallel e =>
      have hjoined : ¬ (e.targets = targets ∧ e.joinNode = none) := fun hopen =>
        h e List.mem_cons_self hopen.2
      simp only [List.cons_append, WorkflowGraph.joinEdges, if_neg hjoined, hrest]
    | _ => simp only [List.cons_append, WorkflowGraph.joinEdges, hrest]

/-- The names of a step are new to the builder. -/
structure New (g : WorkflowGraph) (ws : List Worker) : Prop where
  fresh : ∀ w ∈ ws, w.id ∉ g.nodes.keys
  distinct : (ws.map (·.id)).Nodup

theorem call_single {g g' : WorkflowGraph} {w : Worker} (hidle : Idle g)
    (h : Step.call g (.single w) = .ok g') : g' = laid g [.single w] := by
  simp only [Step.call, WorkflowGraph.thenNode] at h
  rcases hadd : g.addNode w.id w.node none false false with error | g₁
  · rw [hadd] at h
    cases h
  · rw [hadd] at h
    obtain rfl := addNode_ok hadd
    simp only [bind, Except.bind, WorkflowGraph.withNode] at h
    obtain ⟨schema, name, nodes, edges, handoffEdges, entryPoint, lastNode, parallelNodes⟩ := g
    obtain rfl : parallelNodes = none := hidle.noParallel
    rw [laid_step]
    cases lastNode
    · cases h
      simp [withNodes, Step.branches, Step.main, Step.ownEdges, WorkflowGraph.withNode]
    · cases h
      rfl

theorem call_loop {g g' : WorkflowGraph} {w : Worker} {condition : PyDict → Except Raised Bool}
    {maxIterations : Nat} {positive : 1 ≤ maxIterations} (hidle : Idle g) (hnew : New g [w])
    (h : Step.call g (.loop w condition maxIterations positive) = .ok g') :
    g' = laid g [.loop w condition maxIterations positive] := by
  have hw : w.id ∉ g.nodes.keys := hnew.fresh w (by simp)
  simp only [Step.call, WorkflowGraph.loop, if_neg hw] at h
  rcases hadd : g.addNode w.id w.node none false false with error | g₁
  · rw [hadd] at h
    cases h
  · rw [hadd] at h
    obtain rfl := addNode_ok hadd
    simp only [bind, Except.bind, WorkflowGraph.withNode] at h
    have hlast := hidle.last
    have hnone := hidle.noParallel
    obtain ⟨schema, name, nodes, edges, handoffEdges, entryPoint, lastNode, parallelNodes⟩ := g
    obtain rfl : parallelNodes = none := hnone
    rw [laid_step]
    rcases lastNode with _ | last
    · cases h
      rfl
    · have hne : last ≠ w.id := by
        rintro rfl
        exact hw (hlast _ rfl)
      simp only [hne, ne_eq, not_false_eq_true, if_true] at h
      cases h
      simp [withNodes, Step.branches, Step.main, Step.ownEdges, Step.edgeFrom,
        WorkflowGraph.withNode, WorkflowGraph.addEdge, WorkflowGraph.addConditionalEdge]

/-- The edge of a fan-out that waits for its join. -/
def openEdge (branches : List Worker) (source : String) : GraphEdge :=
  .parallel ⟨source, (branches.map (·.id)).map .node, none⟩

theorem parallel_ok {g g' : WorkflowGraph} {branches : List Worker} (hidle : Idle g)
    (hnew : New g branches)
    (h : g.parallel (branches.map (fun b => (b.id, b.node))) = .ok g') :
    g' = { withNodes g branches with
      edges := g.edges ++ g.lastNode.toList.map (openEdge branches)
      parallelNodes := some (branches.map (·.id))
      lastNode := none } := by
  unfold WorkflowGraph.parallel at h
  rcases hitems : g.addItems 0 (branches.map (fun b => (b.id, b.node))) with error | ⟨g₁, names⟩
  · rw [hitems] at h
    cases h
  · rw [hitems] at h
    obtain ⟨rfl, rfl⟩ := addItems_ok hnew.fresh hnew.distinct hitems
    have hnone : (withNodes g branches).parallelNodes = none := by
      rw [withNodes_eq]
      exact hidle.noParallel
    have hedges : (withNodes g branches).edges = g.edges := by rw [withNodes_eq]
    have hlast : (withNodes g branches).lastNode = g.lastNode := by rw [withNodes_eq]
    simp only [bind, Except.bind, hnone, hedges, hlast] at h
    rcases hg : g.lastNode with _ | last
    · rw [hg] at h
      cases h
      simp
    · rw [hg] at h
      cases h
      rfl

theorem join_ok {g g' : WorkflowGraph} {names : List String} {join : Worker}
    (hnames : g.parallelNodes = some names) (h : g.join join.id join.node = .ok g') :
    g' = { g.withNode join.id join.node with
      edges := WorkflowGraph.joinEdges (names.map .node) (.node join.id) g.edges
      parallelNodes := none
      lastNode := some join.id } := by
  unfold WorkflowGraph.join at h
  rw [hnames] at h
  simp only at h
  rcases hadd : g.addNode join.id join.node none false false with error | g₁
  · rw [hadd] at h
    cases h
  · rw [hadd] at h
    obtain rfl := addNode_ok hadd
    cases h
    rfl

theorem joinEdges_open {branches : List Worker} {joinNode : Target} (last : Option String) :
    WorkflowGraph.joinEdges ((branches.map (·.id)).map .node) joinNode
        (last.toList.map (openEdge branches)) =
      last.toList.map (fun source =>
        .parallel ⟨source, branches.map (fun b => .node b.id), some joinNode⟩) := by
  cases last with
  | none => rfl
  | some last => simp [WorkflowGraph.joinEdges, openEdge]

theorem call_parallel {g g' : WorkflowGraph} {branches : List Worker} {join : Worker}
    (hidle : Idle g) (hnew : New g (branches ++ [join]))
    (h : Step.call g (.parallel branches join) = .ok g') :
    g' = laid g [.parallel branches join] := by
  have hbranches : New g branches := by
    refine ⟨fun w hw => hnew.fresh w (List.mem_append_left _ hw), ?_⟩
    have hdistinct := hnew.distinct
    rw [List.map_append] at hdistinct
    exact hdistinct.of_append_left
  simp only [Step.call] at h
  rcases hpar : g.parallel (branches.map (fun b => (b.id, b.node))) with error | g₁
  · rw [hpar] at h
    cases h
  · rw [hpar] at h
    obtain rfl := parallel_ok hidle hbranches hpar
    simp only [bind, Except.bind] at h
    obtain rfl := join_ok rfl h
    simp only [joinEdges_joined hidle.joined, joinEdges_open]
    rw [laid_step]
    simp only [Step.branches, Step.main, withNodes_eq, Step.ownEdges, List.append_nil]
    rfl

/-- Every step of a chain lays out its part of the graph. -/
theorem call_ok {g g' : WorkflowGraph} {s : Step} (hidle : Idle g) (hnew : New g s.workers)
    (h : s.call g = .ok g') : g' = laid g [s] := by
  cases s with
  | single w => exact call_single hidle h
  | loop w condition maxIterations positive => exact call_loop hidle hnew h
  | parallel branches join => exact call_parallel hidle hnew h

theorem Idle.step {g : WorkflowGraph} {s : Step} (h : Idle g) : Idle (laid g [s]) := by
  refine ⟨rfl, ?_, ?_⟩
  · intro e he
    simp only [laid, edgesAfter, List.append_nil, List.mem_append, List.mem_map] at he
    rcases he with he | ⟨last, -, hlast⟩ | hown
    · exact h.joined e he
    · cases s with
      | parallel branches join =>
        cases hlast
        simp
      | _ => cases hlast
    · cases s <;> simp [Step.ownEdges] at hown
  · intro last hlast
    obtain rfl : s.main.id = last := Option.some.inj hlast
    rw [laid_step]
    exact (Dict.mem_keys_set _ _ _ _).mpr (Or.inl rfl)

theorem laid_nil {g : WorkflowGraph} (h : Idle g) : laid g [] = g := by
  have hnone := h.noParallel
  obtain ⟨schema, name, nodes, edges, handoffEdges, entryPoint, lastNode, parallelNodes⟩ := g
  subst hnone
  simp [laid, workersOf, entriesOf, Dict.setAll, edgesAfter, lastAfter]

theorem mem_keys_laid {g : WorkflowGraph} {steps : List Step}
    (hdistinct : (idsOf steps).Nodup) {id : String} :
    id ∈ (laid g steps).nodes.keys ↔ id ∈ g.nodes.keys ∨ id ∈ idsOf steps := by
  have hfst : (entriesOf (workersOf steps)).map Prod.fst = idsOf steps := by
    simp [entriesOf, idsOf]
  simp only [laid]
  rw [Dict.keys_setAll _ (hfst ▸ hdistinct), hfst, List.mem_append, List.mem_filter]
  by_cases h : id ∈ g.nodes.keys <;> simp [h]

/-- A chain with distinct names lays out the graph of its steps. -/
theorem calls_ok {g g' : WorkflowGraph} {steps : List Step} (hidle : Idle g)
    (hnew : New g (workersOf steps)) (h : steps.foldlM Step.call g = .ok g') :
    g' = laid g steps := by
  induction steps generalizing g with
  | nil =>
    cases h
    exact (laid_nil hidle).symm
  | cons s rest ih =>
    have hworkers : workersOf (s :: rest) = s.workers ++ workersOf rest := rfl
    rw [List.foldlM_cons] at h
    rcases hs : s.call g with error | g₁
    · rw [hs] at h
      cases h
    · rw [hs] at h
      rw [hworkers] at hnew
      obtain ⟨hfresh, hdistinct⟩ := hnew
      rw [List.map_append, List.nodup_append] at hdistinct
      obtain ⟨hfirst, hlater, hapart⟩ := hdistinct
      obtain rfl : g₁ = laid g [s] :=
        call_ok hidle ⟨fun w hw => hfresh w (List.mem_append_left _ hw), hfirst⟩ hs
      rw [← laid_cons]
      refine ih hidle.step ⟨?_, hlater⟩ h
      intro v hv hmem
      have hids : idsOf [s] = s.workers.map (·.id) := by simp [idsOf, workersOf]
      rcases (mem_keys_laid (hids ▸ hfirst)).mp hmem with hmem | hmem
      · exact hfresh v (List.mem_append_right _ hv) hmem
      · exact hapart _ (hids ▸ hmem) _ (List.mem_map_of_mem hv) rfl

/-! ## The graph of a chain -/

def mainIds (steps : List Step) : List String := steps.map (fun s => s.main.id)

def branchIds (steps : List Step) : List String := (steps.flatMap Step.branches).map (·.id)

/-- The ids of a chain are those of its main nodes and those of its branches. -/
theorem idsOf_perm (steps : List Step) :
    (idsOf steps).Perm (branchIds steps ++ mainIds steps) := by
  induction steps with
  | nil => exact .refl _
  | cons s rest ih =>
    have hids : idsOf (s :: rest) =
        s.branches.map (·.id) ++ (s.main.id :: idsOf rest) := by
      simp [idsOf, workersOf, Step.workers]
    have hbranches : branchIds (s :: rest) = s.branches.map (·.id) ++ branchIds rest := by
      simp [branchIds]
    rw [hids, hbranches, List.append_assoc]
    refine List.Perm.append_left _ (List.Perm.trans (List.Perm.cons _ ih) ?_)
    exact List.perm_middle.symm

theorem mainIds_nodup {steps : List Step} (h : (idsOf steps).Nodup) : (mainIds steps).Nodup :=
  ((idsOf_perm steps).nodup_iff.mp h).of_append_right

theorem branch_ne_main {steps : List Step} (h : (idsOf steps).Nodup) {id : String}
    (hbranch : id ∈ branchIds steps) : id ∉ mainIds steps := by
  have hnodup := (idsOf_perm steps).nodup_iff.mp h
  exact fun hmain => (List.nodup_append.mp hnodup).2.2 id hbranch id hmain rfl

@[simp] theorem source_edgeFrom (s : Step) (source : String) :
    (s.edgeFrom source).source = source := by
  cases s <;> rfl

theorem source_ownEdges {s : Step} {edge : GraphEdge} (h : edge ∈ s.ownEdges) :
    edge.source = s.main.id := by
  cases s with
  | loop w condition maxIterations positive =>
    rw [List.mem_singleton.mp h]
    rfl
  | _ => cases h

theorem source_edgesAfter {last : Option String} {steps : List Step} {edge : GraphEdge}
    (h : edge ∈ edgesAfter last steps) : edge.source ∈ last.toList ++ mainIds steps := by
  induction steps generalizing last with
  | nil => cases h
  | cons s rest ih =>
    rw [edgesAfter, List.mem_append, List.mem_append] at h
    rcases h with (h | h) | h
    · obtain ⟨source, hsource, rfl⟩ := List.mem_map.mp h
      rw [source_edgeFrom]
      exact List.mem_append_left _ hsource
    · rw [source_ownEdges h]
      exact List.mem_append_right _ List.mem_cons_self
    · exact List.mem_append_right _ (ih h)

theorem filter_other {edges : List GraphEdge} {id : String}
    (h : ∀ edge ∈ edges, edge.source ≠ id) :
    edges.filter (fun edge => edge.source = id) = [] := by
  rw [List.filter_eq_nil_iff]
  intro edge hedge
  simpa using h edge hedge

theorem filter_own {edges : List GraphEdge} {id : String}
    (h : ∀ edge ∈ edges, edge.source = id) :
    edges.filter (fun edge => edge.source = id) = edges := by
  rw [List.filter_eq_self]
  intro edge hedge
  simpa using h edge hedge

/-- The edges out of a main node that its chain has laid out. -/
theorem filter_edgesAfter {pre rest : List Step} {s : Step} {last : Option String}
    (hlast : ∀ l, last = some l → l ∉ mainIds (pre ++ s :: rest))
    (h : (mainIds (pre ++ s :: rest)).Nodup) :
    (edgesAfter last (pre ++ s :: rest)).filter (fun edge => edge.source = s.main.id) =
      s.ownEdges ++ rest.head?.toList.map (fun t => t.edgeFrom s.main.id) := by
  induction pre generalizing last with
  | nil =>
    simp only [List.nil_append, mainIds, List.map_cons, List.nodup_cons] at h hlast ⊢
    obtain ⟨hs, hrest⟩ := h
    have hinto : (last.toList.map s.edgeFrom).filter
        (fun edge => edge.source = s.main.id) = [] := by
      apply filter_other
      intro edge hedge
      obtain ⟨source, hsource, rfl⟩ := List.mem_map.mp hedge
      rw [source_edgeFrom]
      rintro rfl
      exact hlast _ (Option.mem_toList.mp hsource) List.mem_cons_self
    rw [edgesAfter, List.filter_append, List.filter_append, hinto, List.nil_append,
      filter_own (fun edge => source_ownEdges)]
    congr 1
    cases rest with
    | nil => rfl
    | cons t later =>
      simp only [List.map_cons, List.nodup_cons, List.mem_cons, not_or] at hs hrest
      have hlater : (t.ownEdges ++ edgesAfter (some t.main.id) later).filter
          (fun edge => edge.source = s.main.id) = [] := by
        apply filter_other
        intro edge hedge heq
        rcases List.mem_append.mp hedge with hedge | hedge
        · exact hs.1 (heq.symm.trans (source_ownEdges hedge))
        · have hmem := source_edgesAfter hedge
          rw [heq] at hmem
          rcases List.mem_cons.mp hmem with heq | hmem
          · exact hs.1 heq
          · exact hs.2 hmem
      rw [edgesAfter, List.append_assoc, List.filter_append, hlater, List.append_nil]
      simp
  | cons p pre ih =>
    simp only [List.cons_append, mainIds, List.map_cons, List.nodup_cons] at h hlast ⊢
    obtain ⟨hp, hnodup⟩ := h
    have hmem : s.main.id ∈ (pre ++ s :: rest).map (fun s => s.main.id) :=
      List.mem_map_of_mem (by simp)
    have hbefore : (last.toList.map p.edgeFrom ++ p.ownEdges).filter
        (fun edge => edge.source = s.main.id) = [] := by
      apply filter_other
      intro edge hedge heq
      rcases List.mem_append.mp hedge with hedge | hedge
      · obtain ⟨source, hsource, rfl⟩ := List.mem_map.mp hedge
        rw [source_edgeFrom] at heq
        subst heq
        exact hlast _ (Option.mem_toList.mp hsource) (List.mem_cons_of_mem _ hmem)
      · exact hp ((source_ownEdges hedge).symm.trans heq ▸ hmem)
    rw [edgesAfter, List.filter_append, hbefore, List.nil_append]
    refine ih ?_ hnodup
    rintro l hl
    cases hl
    exact hp


theorem lastAfter_append (last : Option String) (pre rest : List Step) (s : Step) :
    lastAfter last (pre ++ s :: rest) = lastAfter (some s.main.id) rest := by
  simp [lastAfter, List.foldl_append]

theorem lastAfter_mem {last : Option String} {steps : List Step} {id : String}
    (h : lastAfter last steps = some id) : last = some id ∧ steps = [] ∨ id ∈ mainIds steps := by
  induction steps generalizing last with
  | nil => exact Or.inl ⟨h, rfl⟩
  | cons s rest ih =>
    refine Or.inr ?_
    rcases ih h with ⟨heq, -⟩ | hmem
    · cases heq
      exact List.mem_cons_self
    · exact List.mem_cons_of_mem _ hmem

namespace Step

/-- The edges out of the main node of a step, before the steps `rest`. -/
def exits (s : Step) (rest : List Step) : List GraphEdge :=
  s.ownEdges ++
    match rest with
    | [] => if s.isLoop then [] else [.plain s.main.id .END]
    | t :: _ => [t.edgeFrom s.main.id]

end Step

/-- What the graph of a chain is: its nodes, and the edges between them. -/
structure Layout (steps : List Step) (G : CompiledGraph) : Prop where
  entry : G.entryPoint = ((idsOf steps).head?).getD ""
  nodes : ∀ w ∈ workersOf steps, G.nodes.get? w.id = some w.node
  handoffs : G.handoffEdges = []
  exits : ∀ pre s rest, steps = pre ++ s :: rest → G.edgesFrom s.main.id = s.exits rest
  leaves : ∀ id ∈ branchIds steps, G.edgesFrom id = []

theorem ownEdges_eq_nil_iff {s : Step} : s.ownEdges = [] ↔ s.isLoop = false := by
  cases s <;> simp [Step.ownEdges, Step.isLoop]

theorem any_of_filter {edges : List GraphEdge} {id : String} :
    edges.any (fun edge => edge.source = id) = true ↔
      edges.filter (fun edge => edge.source = id) ≠ [] := by
  rw [List.any_eq_true, ne_eq, List.filter_eq_nil_iff]
  simp

/-- The closing edge leaves the main node of the last step, unless that step is a loop. -/
theorem closingEdge_laid {g : WorkflowGraph} {pre rest : List Step} {s : Step}
    (hedges : g.edges = edgesAfter none (pre ++ s :: rest))
    (hlast : g.lastNode = lastAfter none (pre ++ s :: rest))
    (hdistinct : (mainIds (pre ++ s :: rest)).Nodup) :
    g.closingEdge.filter (fun edge => edge.source = s.main.id) =
      if rest = [] ∧ s.isLoop = false then [.plain s.main.id .END] else [] := by
  have hown : g.edges.filter (fun edge => edge.source = s.main.id) =
      s.ownEdges ++ rest.head?.toList.map (fun t => t.edgeFrom s.main.id) := by
    rw [hedges]
    exact filter_edgesAfter (by simp) hdistinct
  rw [lastAfter_append] at hlast
  unfold WorkflowGraph.closingEdge
  rcases rest with _ | ⟨t, later⟩
  · change g.lastNode = some s.main.id at hlast
    simp only [List.head?_nil, Option.toList_none, List.map_nil, List.append_nil] at hown
    simp only [hlast, any_of_filter, hown, ne_eq, ownEdges_eq_nil_iff]
    rcases s.isLoop with _ | _
    · simp [GraphEdge.source]
    · simp
  · unfold mainIds at hdistinct
    rw [List.map_append, List.map_cons] at hdistinct
    have hs : s.main.id ∉ mainIds (t :: later) :=
      (List.nodup_cons.mp hdistinct.of_append_right).1
    rw [if_neg (by simp)]
    apply filter_other
    intro edge hedge heq
    rcases hg : g.lastNode with _ | id
    · simp [hg] at hedge
    · rw [hg] at hlast hedge
      have hid : id ∈ mainIds (t :: later) := by
        rcases lastAfter_mem hlast.symm with ⟨-, hnil⟩ | hmem
        · cases hnil
        · exact hmem
      simp only at hedge
      split at hedge
      · cases hedge
      · rw [List.mem_singleton.mp hedge] at heq
        exact hs (heq ▸ hid)

theorem get?_entries {ws : List Worker} (h : (ws.map (·.id)).Nodup) {w : Worker} (hw : w ∈ ws) :
    (Dict.empty.setAll (entriesOf ws)).get? w.id = some w.node := by
  have hfst : (entriesOf ws).map Prod.fst = ws.map (·.id) := by simp [entriesOf]
  have hnodup : ((entriesOf ws).map Prod.fst).Nodup := hfst ▸ h
  have hlookup : (entriesOf ws).lookup w.id = some w.node :=
    (Dict.mem_entries_iff ⟨entriesOf ws, hnodup⟩ w.id w.node).mp (List.mem_map_of_mem hw)
  rw [Dict.get?_setAll _ hnodup, hlookup]
  rfl

/-- A graph with the nodes and the edges of a chain. -/
theorem layout_of_laid {schema : Option Schema} {name : String} {steps : List Step}
    {G : CompiledGraph} (hdistinct : (idsOf steps).Nodup)
    (hentry : G.entryPoint = ((idsOf steps).head?).getD "")
    (hnodes : G.nodes = Dict.empty.setAll (entriesOf (workersOf steps)))
    (hedges : G.edges = edgesAfter none steps ++
      (laid (WorkflowGraph.new schema name) steps).closingEdge)
    (hhandoffs : G.handoffEdges = []) : Layout steps G := by
  have hlaid : (laid (WorkflowGraph.new schema name) steps).edges = edgesAfter none steps := rfl
  have hlast : (laid (WorkflowGraph.new schema name) steps).lastNode = lastAfter none steps := rfl
  have hmains := mainIds_nodup hdistinct
  refine ⟨hentry, ?_, hhandoffs, ?_, ?_⟩
  · intro w hw
    rw [hnodes]
    exact get?_entries hdistinct hw
  · rintro pre s rest rfl
    unfold CompiledGraph.edgesFrom Step.exits
    rw [hedges, List.filter_append, filter_edgesAfter (by simp) hmains,
      closingEdge_laid hlaid hlast hmains]
    rcases rest with _ | ⟨t, later⟩
    · rcases s.isLoop with _ | _ <;> simp
    · simp
  · intro id hid
    have hmain := branch_ne_main hdistinct hid
    unfold CompiledGraph.edgesFrom
    rw [hedges]
    apply filter_other
    rintro edge hedge rfl
    rcases List.mem_append.mp hedge with hedge | hedge
    · exact hmain (by simpa using source_edgesAfter hedge)
    · unfold WorkflowGraph.closingEdge at hedge
      rw [hlast] at hedge
      rcases hid' : lastAfter none steps with _ | last
      · simp [hid'] at hedge
      · rw [hid'] at hedge
        simp only at hedge
        split at hedge
        · cases hedge
        · rw [List.mem_singleton.mp hedge] at hmain
          rcases lastAfter_mem hid' with ⟨hnone, -⟩ | hmem
          · cases hnone
          · exact hmain hmem

/-- The graph of a chain with distinct names. -/
theorem layout_of_build {schema : Option Schema} {name : String} {steps : List Step}
    {g : WorkflowGraph} {G : CompiledGraph} {maxTurns : Nat} (hdistinct : (idsOf steps).Nodup)
    (hbuild : build schema name steps = .ok g) (hcompile : g.compile maxTurns = .ok G) :
    Layout steps G ∧ G.maxTurns = maxTurns := by
  have hidle : Idle (WorkflowGraph.new schema name) := by
    refine ⟨rfl, ?_, ?_⟩
    · intro e he
      cases he
    · intro last hlast
      cases hlast
  have hnew : New (WorkflowGraph.new schema name) (workersOf steps) := by
    refine ⟨?_, hdistinct⟩
    intro w _ hmem
    cases hmem
  obtain rfl := calls_ok hidle hnew hbuild
  unfold WorkflowGraph.compile at hcompile
  split at hcompile
  · cases hcompile
  · cases hcompile
    refine ⟨layout_of_laid hdistinct ?_ rfl rfl rfl, rfl⟩
    simp [laid, WorkflowGraph.new, idsOf]

end orchestra.fluent
