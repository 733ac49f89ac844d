-- The end of a workflow in YAML. Two loaders read the edges of a file, `load_workflow`
-- (`discovery/workflow_loader.py`) and `load_graph_yaml` (`core/dynamic.py`), and each translates
-- `__end__` in the places where it thinks of it.
import Orchestra.HotReload

open dicts fallible orchestra.state orchestra.edges orchestra.nodes orchestra.graph
open orchestra.hot_reload
open orchestra.compiled (CompiledGraph lookupNodes)

namespace orchestra.yaml_ends

/-! ## The loader of dynamic graphs -/

/-- `agent_factory(**config)`, for what a ref names. -/
abbrev Factory : Type := Imported → Value → Except Raised Imported

/-- `builder.resolve_ref(ref)`, which asks for the start of the ref. -/
def resolveRefValue (env : Env) : Value → Except Raised Imported
  | .str ref => resolveRef env ref
  | v => .error (attributeError v "startswith")

/-- `graph.add_node` of what the ref names or what its factory makes. -/
def addFound (g : WorkflowGraph) (nodeId : String) (ref : Value) (found : Imported) :
    Except Raised WorkflowGraph := do
  let node ← wrapped found ref
  match g.addNode nodeId node none false false with
  | .error e => .error (graphCompileError e.message)
  | .ok g => .ok g

/-- One node of the file. A subgraph is passed over. -/
def loadGraphNode (env : Env) (call : Factory) (g : WorkflowGraph) (nodeId : String) :
    Value → Except Raised WorkflowGraph
  | .dict fields =>
    let nodeType := (fields.lookup "type").getD (.str "function")
    let ref := (fields.lookup "ref").getD .none
    if nodeType = .str "agent" then do
      let factory ← resolveRefValue env ref
      let agent ← call factory ((fields.lookup "config").getD (.dict []))
      addFound g nodeId ref agent
    else if nodeType = .str "subgraph" then .ok g
    else do
      let func ← resolveRefValue env ref
      addFound g nodeId ref func
  | v => .error (attributeError v "get")

def loadGraphNodes (env : Env) (call : Factory) :
    WorkflowGraph → List (String × Value) → Except Raised WorkflowGraph
  | g, [] => .ok g
  | g, (nodeId, nodeData) :: rest => do
    let g ← loadGraphNode env call g nodeId nodeData
    loadGraphNodes env call g rest

/-- The targets of a parallel edge, as they are in the file. -/
def loadGraphTargets : List Value → Except Raised (List Target)
  | [] => .ok []
  | target :: rest => do
    let target ← endOf target
    let rest ← loadGraphTargets rest
    .ok (.node target :: rest)

/-- `edge_data.get("paths")` -/
def graphPathsOf : Option Value → Except Raised (Option (Dict String Target))
  | none => .ok none
  | some paths => pathMapOf (some paths)

/-- One edge of the file. -/
def loadGraphEdge (env : Env) (g : WorkflowGraph) : Value → Except Raised WorkflowGraph
  | .dict fields =>
    match fields.lookup "source", fields.lookup "target" with
    | none, _ => .error (keyError "source")
    | some _, none => .error (keyError "target")
    | some source, some (.list targets) => do
      let source ← endOf source
      let targets ← loadGraphTargets targets
      .ok { g with
        edges := g.edges ++ [.parallel ⟨source, targets, joinOf (fields.lookup "join")⟩] }
    | some source, some target =>
      if fields.lookup "type" = some (.str "conditional") then
        match fields.lookup "condition" with
        | none => .error (keyError "condition")
        | some condition => do
          let found ← resolveRefValue env condition
          let paths ← graphPathsOf (fields.lookup "paths")
          let source ← endOf source
          .ok (g.addConditionalEdge source found.condition paths)
      else do
        let source ← endOf source
        let target ← endOf target
        .ok (g.addEdge source (if target = "__end__" then .END else .node target))
  | v => .error (typeError (v.repr ++ " has no key 'source'"))

def loadGraphEdges (env : Env) : WorkflowGraph → List Value → Except Raised WorkflowGraph
  | g, [] => .ok g
  | g, edge :: rest => do
    let g ← loadGraphEdge env g edge
    loadGraphEdges env g rest

/-- `load_graph_yaml` -/
def loadGraphYaml (env : Env) (call : Factory) (text : String) : Except Raised Loaded :=
  match env.parse text with
  | .error message => .error ⟨"YAMLError", message, false⟩
  | .ok (.dict data) => do
    let name := (data.lookup "name").getD (.str "dynamic_graph")
    let nodes ← nodesOf data
    let g ← loadGraphNodes env call (.new none name.text) nodes
    let edges ← ((data.lookup "edges").getD (.list [])).iterate
    let g ← loadGraphEdges env g edges
    let g ← withEntryPoint g (data.lookup "entry_point")
    match g.compile (maxTurnsOf (data.lookup "max_turns")) with
    | .error e => .error (graphCompileError e.message)
    | .ok graph => .ok ⟨name, graph⟩
  | .ok v => .error (attributeError v "get")

/-! ## The forms of an edge -/

/-- What an edge of the file says of where it leads. The target of a conditional edge is not
used. -/
inductive Form
  | plain (target : Value)
  | parallel (targets : List Value) (join : Option Value)
  | conditional (paths : Option Value)

def formOf (fields : List (String × Value)) : Option Form :=
  match fields.lookup "target" with
  | none => none
  | some (.list targets) => some (.parallel targets (fields.lookup "join"))
  | some target =>
    if fields.lookup "type" = some (.str "conditional") then
      some (.conditional (fields.lookup "paths"))
    else some (.plain target)

/-- A reference to a node that is there, or to the end. -/
def Named (ids : List String) (v : Value) : Prop := ∃ t, v = .str t ∧ (t ∈ ids ∨ t = "__end__")

/-- All that the edge leads to is there. A mapping in YAML has each key once. -/
def Form.Known (ids : List String) : Form → Prop
  | .plain target => Named ids target
  | .parallel targets join => (∀ v ∈ targets, Named ids v) ∧ ∀ v ∈ join, v = .none ∨ Named ids v
  | .conditional paths => ∀ v ∈ paths, v = .none ∨
      ∃ m, v = .dict m ∧ (m.map (·.1)).Nodup ∧ ∀ e ∈ m, Named ids e.2

/-- The end is where it is translated: the target of a plain edge. -/
def Form.Plain : Form → Prop
  | .plain _ => True
  | .parallel targets join => .str "__end__" ∉ targets ∧ join ≠ some (.str "__end__")
  | .conditional paths => ∀ m, paths = some (.dict m) → ∀ e ∈ m, e.2 ≠ .str "__end__"

/-- Each `__end__` of the edge denotes the end in the graph: the engine goes to END over a plain
edge, from a fan-out to its join, and by the answer of a condition, and no fan-out fails over a
branch that is the end. -/
def Form.Ends (G : CompiledGraph) : Form → GraphEdge → Prop
  | .plain target, .plain _ t => target = .str "__end__" → t = .END
  | .parallel targets join, .parallel p =>
    (∀ i : Nat, targets[i]? = some (.str "__end__") →
      p.targets[i]? = some .END ∧ ∃ found, lookupNodes G p.targets = .ok found) ∧
      (join = some (.str "__end__") → p.joinNode.getD .END = .END)
  | .conditional paths, .conditional c => ∀ m k, paths = some (.dict m) →
      (k, .str "__end__") ∈ m → ∃ d, c.pathMap = some d ∧ d.get? k = some .END
  | _, _ => False

/-- The edge of the graph for the edge of the file. -/
def EndsAt (G : CompiledGraph) (v : Value) (e : GraphEdge) : Prop :=
  ∀ fields form, v = .dict fields → formOf fields = some form → form.Ends G e

/-- The loader takes the document, and each `__end__` in it is the end. -/
def EndIsEnd (load : Except Raised Loaded) (edges : List Value) : Prop :=
  ∃ loaded, load = .ok loaded ∧ List.Forall₂ (EndsAt loaded.graph) edges loaded.graph.edges

/-- In the edge of the file the end is the target of a plain edge at most. -/
def PlainAt (v : Value) : Prop :=
  ∀ fields form, v = .dict fields → formOf fields = some form → form.Plain

/-- An edge of the file whose nodes are there, and whose condition is. -/
structure EdgeKnown (resolves : List (String × Value) → Prop) (ids : List String)
    (fields : List (String × Value)) (source : String) (form : Form) : Prop where
  source_eq : fields.lookup "source" = some (.str source)
  source_mem : source ∈ ids
  form_eq : formOf fields = some form
  known : form.Known ids
  resolves : ∀ paths, form = .conditional paths → resolves fields

/-- A document whose nodes are there and whose references resolve: `g` has its nodes, and its edges
and its entry point name them. -/
structure Document (resolves : List (String × Value) → Prop) (data : List (String × Value))
    (g : WorkflowGraph) (edges : List Value) : Prop where
  listed : ((data.lookup "edges").getD (.list [])).iterate = .ok edges
  known : ∀ v ∈ edges, ∃ fields source form, v = .dict fields ∧
    EdgeKnown resolves g.nodes.keys fields source form
  entry : ∃ entryPoint, (withEntryPoint g (data.lookup "entry_point")).map (·.entryPoint) =
    .ok (some entryPoint) ∧ entryPoint ≠ "" ∧ entryPoint ∈ g.nodes.keys

/-! ## Translations -/

/-- The edge of the graph is that of the file. The targets of a parallel edge are translated
by `T`. -/
def Form.Read (T : String → Target) : Form → GraphEdge → Prop
  | .plain target, .plain _ t => ∃ s, target = .str s ∧ t = resolveTarget s
  | .parallel targets join, .parallel p =>
    (∃ names : List String, targets = names.map .str ∧ p.targets = names.map T) ∧
      p.joinNode = joinOf join
  | .conditional paths, .conditional c =>
    (∀ m k t, paths = some (.dict m) → (k, .str t) ∈ m →
      ∃ d, c.pathMap = some d ∧ d.get? k = some (.node t)) ∧
      ∀ d k t, c.pathMap = some d → d.get? k = some t →
        ∃ m s, paths = some (.dict m) ∧ (k, .str s) ∈ m ∧ t = .node s
  | _, _ => False

def ReadAt (T : String → Target) (ids : List String) (v : Value) (e : GraphEdge) : Prop :=
  ∃ fields form, v = .dict fields ∧ formOf fields = some form ∧ form.Known ids ∧
    form.Read T e ∧ e.source ∈ ids

theorem endOf_str (s : String) : endOf (.str s) = .ok s := rfl

theorem exists_names {ids : List String} {targets : List Value} (h : ∀ v ∈ targets, Named ids v) :
    ∃ names : List String, targets = names.map .str ∧ ∀ s ∈ names, s ∈ ids ∨ s = "__end__" := by
  induction targets with
  | nil => exact ⟨[], rfl, by simp⟩
  | cons v targets ih =>
    obtain ⟨⟨s, rfl, hs⟩, hrest⟩ := List.forall_mem_cons.mp h
    obtain ⟨names, rfl, hnames⟩ := ih hrest
    exact ⟨s :: names, rfl, List.forall_mem_cons.mpr ⟨hs, hnames⟩⟩

theorem loadTargets_names (names : List String) :
    loadTargets (names.map .str) = .ok (names.map resolveTarget) := by
  induction names with
  | nil => rfl
  | cons s names ih =>
    rw [List.map_cons, loadTargets, ih]
    rfl

theorem loadGraphTargets_names (names : List String) :
    loadGraphTargets (names.map .str) = .ok (names.map .node) := by
  induction names with
  | nil => rfl
  | cons s names ih =>
    rw [List.map_cons, loadGraphTargets, ih]
    rfl

/-- A path map is read as it is, and so `__end__` in it is the id of a node. -/
theorem loadPaths_named {ids : List String} {m : List (String × Value)}
    (h : ∀ e ∈ m, Named ids e.2) : ∃ paths, loadPaths m = .ok paths ∧
      List.Forall₂ (fun e p => ∃ t, e = (p.1, .str t) ∧ p.2 = Target.node t) m paths := by
  induction m with
  | nil => exact ⟨[], rfl, .nil⟩
  | cons e m ih =>
    obtain ⟨⟨t, ht, -⟩, hrest⟩ := List.forall_mem_cons.mp h
    obtain ⟨paths, hpaths, hall⟩ := ih hrest
    obtain ⟨k, v⟩ := e
    obtain rfl : v = .str t := ht
    exact ⟨(k, .node t) :: paths, by rw [loadPaths, hpaths]; rfl, .cons ⟨t, rfl, rfl⟩ hall⟩

/-- The path map of the graph has what the mapping has. -/
theorem get?_paths {m : List (String × Value)} {paths : List (String × Target)}
    (hnodup : (m.map (·.1)).Nodup)
    (h : List.Forall₂ (fun e p => ∃ t, e = (p.1, .str t) ∧ p.2 = Target.node t) m paths)
    (k : String) (t : Target) :
    (Dict.ofList paths).get? k = some t ↔ ∃ s, (k, .str s) ∈ m ∧ t = .node s := by
  have hkeys : paths.map Prod.fst = m.map (·.1) := by
    induction h with
    | nil => rfl
    | cons hep _ ih =>
      obtain ⟨t, rfl, -⟩ := hep
      rw [List.map_cons, List.map_cons, List.nodup_cons] at *
      rw [ih hnodup.2]
  have hmem : (k, t) ∈ paths ↔ ∃ s, (k, .str s) ∈ m ∧ t = .node s := by
    clear hnodup hkeys
    induction h with
    | nil => simp
    | @cons e p m paths hep _ ih =>
      obtain ⟨s, rfl, hs⟩ := hep
      obtain ⟨j, u⟩ := p
      obtain rfl : u = .node s := hs
      rw [List.mem_cons, ih]
      constructor
      · rintro (heq | ⟨s', hs', rfl⟩)
        · cases heq
          exact ⟨s, List.mem_cons_self, rfl⟩
        · exact ⟨s', List.mem_cons_of_mem _ hs', rfl⟩
      · rintro ⟨s', hs', rfl⟩
        rcases List.mem_cons.mp hs' with heq | hs'
        · cases heq
          exact .inl rfl
        · exact .inr ⟨s', hs', rfl⟩
  rw [← hmem, Dict.get?_ofList_iff]
  constructor
  · rintro ⟨before, after, rfl, -⟩
    simp
  · intro h
    obtain ⟨before, after, rfl⟩ := List.append_of_mem h
    refine ⟨before, after, rfl, fun e he heq => ?_⟩
    rw [← hkeys, List.map_append, List.map_cons, List.nodup_append] at hnodup
    have hlater := (List.nodup_cons.mp hnodup.2.1).1
    exact hlater (List.mem_map.mpr ⟨e, he, heq⟩)

/-- The path map of a conditional edge, if it has one, is that of the file. -/
theorem read_paths {ids : List String} {paths : Option Value}
    (h : (Form.conditional paths).Known ids) {v : Value} (hv : paths = some v) :
    ∃ d, pathMapOf (some v) = .ok d ∧ ∀ T source condition,
      (Form.conditional paths).Read T (.conditional ⟨source, condition, d⟩) := by
  subst hv
  rcases h v rfl with rfl | ⟨m, rfl, hnodup, hnamed⟩
  · exact ⟨none, rfl, fun _ _ _ => ⟨by simp, by simp⟩⟩
  · obtain ⟨paths, hpaths, hall⟩ := loadPaths_named hnamed
    refine ⟨some (.ofList paths), by rw [pathMapOf, hpaths]; rfl, fun _ _ _ => ⟨?_, ?_⟩⟩
    · rintro m' k t heq hmem
      cases heq
      exact ⟨_, rfl, (get?_paths hnodup hall k _).mpr ⟨t, hmem, rfl⟩⟩
    · rintro d k t heq hget
      cases heq
      obtain ⟨s, hmem, rfl⟩ := (get?_paths hnodup hall k _).mp hget
      exact ⟨m, s, rfl, hmem, rfl⟩

/-- A reader of path maps that reads a mapping so, and has no path where there is none. -/
theorem exists_paths (read : Option Value → Except Raised (Option (Dict String Target)))
    {ids : List String} {paths : Option Value}
    (h : (Form.conditional paths).Known ids) (hsome : ∀ v, read (some v) = pathMapOf (some v))
    (hnone : read none = .ok none ∨ read none = .ok (some .empty)) :
    ∃ d, read paths = .ok d ∧ ∀ T source condition,
      (Form.conditional paths).Read T (.conditional ⟨source, condition, d⟩) := by
  cases paths with
  | none =>
    rcases hnone with hnone | hnone
    · exact ⟨none, hnone, fun _ _ _ => ⟨nofun, nofun⟩⟩
    · refine ⟨some .empty, hnone, fun _ _ _ => ⟨nofun, ?_⟩⟩
      rintro d k t ⟨⟩ ⟨⟩
  | some v =>
    obtain ⟨d, hd, hread⟩ := read_paths h rfl
    exact ⟨d, (hsome v).trans hd, hread⟩

/-! ## The two loaders -/

/-- The condition of an edge resolves for `load_workflow`. -/
def ResolvesRef (env : Env) (fields : List (String × Value)) : Prop :=
  ((fields.lookup "condition_ref").getD .none).truthy = true ∧ ∃ found, ∀ message,
    resolveAs env ((fields.lookup "condition_ref").getD .none) message = .ok found

/-- The condition of an edge resolves for `load_graph_yaml`. -/
def ResolvesCondition (env : Env) (fields : List (String × Value)) : Prop :=
  ∃ condition found, fields.lookup "condition" = some condition ∧
    resolveRefValue env condition = .ok found

/-- A loader reads each edge that is known, with `T` for the targets of a parallel edge. -/
def ReadsEdges (resolves : List (String × Value) → Prop) (T : String → Target)
    (load : WorkflowGraph → Value → Except Raised WorkflowGraph) : Prop :=
  ∀ g ids fields source form, EdgeKnown resolves ids fields source form →
    ∃ e, load g (.dict fields) = .ok { g with edges := g.edges ++ [e] } ∧ e.source = source ∧
      form.Read T e

theorem formOf_cases {fields : List (String × Value)} {form : Form}
    (h : formOf fields = some form) :
    (∃ targets, fields.lookup "target" = some (.list targets) ∧
      form = .parallel targets (fields.lookup "join")) ∨
    (∃ target, fields.lookup "target" = some target ∧ (∀ l, target ≠ .list l) ∧
      fields.lookup "type" = some (.str "conditional") ∧
        form = .conditional (fields.lookup "paths")) ∨
    ∃ target, fields.lookup "target" = some target ∧ (∀ l, target ≠ .list l) ∧
      fields.lookup "type" ≠ some (.str "conditional") ∧ form = .plain target := by
  unfold formOf at h
  split at h
  · cases h
  · rename_i targets htarget
    cases h
    exact .inl ⟨targets, htarget, rfl⟩
  · rename_i target hother htarget
    split at h
    · rename_i htype
      cases h
      exact .inr (.inl ⟨target, htarget, fun l hl => hother l hl, htype, rfl⟩)
    · rename_i htype
      cases h
      exact .inr (.inr ⟨target, htarget, fun l hl => hother l hl, htype, rfl⟩)

theorem loadEdge_reads (env : Env) :
    ReadsEdges (ResolvesRef env) resolveTarget (loadEdge env) := by
  intro g ids fields source form h
  unfold loadEdge
  rcases formOf_cases h.form_eq with ⟨targets, htarget, rfl⟩ |
    ⟨target, htarget, hother, htype, rfl⟩ | ⟨target, htarget, hother, htype, rfl⟩
  · obtain ⟨names, rfl, -⟩ := exists_names h.known.1
    simp only [h.source_eq, htarget, endOf_str, loadTargets_names]
    exact ⟨_, rfl, rfl, ⟨names, rfl, rfl⟩, rfl⟩
  · obtain ⟨htruthy, found, hfound⟩ := h.resolves _ rfl
    obtain ⟨d, hd, hread⟩ := exists_paths pathMapOf h.known (fun _ => rfl) (.inr rfl)
    refine ⟨.conditional ⟨source, found.condition, d⟩, ?_, rfl, hread _ _ _⟩
    cases target with
    | list l => exact absurd rfl (hother l)
    | _ =>
      simp only [h.source_eq, htarget, htype, if_true, htruthy, hfound, hd, endOf_str]
      rfl
  · obtain ⟨s, rfl, -⟩ := h.known
    simp only [h.source_eq, htarget, if_neg htype, endOf_str]
    exact ⟨_, rfl, rfl, s, rfl, rfl⟩

theorem loadGraphEdge_reads (env : Env) :
    ReadsEdges (ResolvesCondition env) .node (loadGraphEdge env) := by
  intro g ids fields source form h
  unfold loadGraphEdge
  rcases formOf_cases h.form_eq with ⟨targets, htarget, rfl⟩ |
    ⟨target, htarget, hother, htype, rfl⟩ | ⟨target, htarget, hother, htype, rfl⟩
  · obtain ⟨names, rfl, -⟩ := exists_names h.known.1
    simp only [h.source_eq, htarget, endOf_str, loadGraphTargets_names]
    exact ⟨_, rfl, rfl, ⟨names, rfl, rfl⟩, rfl⟩
  · obtain ⟨condition, found, hcondition, hfound⟩ := h.resolves _ rfl
    obtain ⟨d, hd, hread⟩ := exists_paths graphPathsOf h.known (fun _ => rfl) (.inl rfl)
    refine ⟨.conditional ⟨source, found.condition, d⟩, ?_, rfl, hread _ _ _⟩
    cases target with
    | list l => exact absurd rfl (hother l)
    | _ =>
      simp only [h.source_eq, htarget, htype, if_true, hcondition, hfound, hd, endOf_str]
      rfl
  · obtain ⟨s, rfl, -⟩ := h.known
    simp only [h.source_eq, htarget, if_neg htype, endOf_str]
    exact ⟨_, rfl, rfl, s, rfl, rfl⟩

/-- The loop over the edges. -/
structure Loop (load : WorkflowGraph → Value → Except Raised WorkflowGraph)
    (loadAll : WorkflowGraph → List Value → Except Raised WorkflowGraph) : Prop where
  nil : ∀ g, loadAll g [] = .ok g
  cons : ∀ g v edges, loadAll g (v :: edges) = load g v >>= fun g => loadAll g edges

theorem loop_edges (env : Env) : Loop (loadEdge env) (loadEdges env) :=
  ⟨fun _ => rfl, fun _ _ _ => rfl⟩

theorem loop_graphEdges (env : Env) : Loop (loadGraphEdge env) (loadGraphEdges env) :=
  ⟨fun _ => rfl, fun _ _ _ => rfl⟩

variable {resolves : List (String × Value) → Prop} {T : String → Target}
  {load : WorkflowGraph → Value → Except Raised WorkflowGraph}
  {loadAll : WorkflowGraph → List Value → Except Raised WorkflowGraph}

/-- All edges of a document are read. -/
theorem reads_all (hreads : ReadsEdges resolves T load) (hloop : Loop load loadAll)
    {ids : List String} {edges : List Value} (g : WorkflowGraph)
    (h : ∀ v ∈ edges, ∃ fields source form, v = .dict fields ∧
      EdgeKnown resolves ids fields source form) :
    ∃ es, loadAll g edges = .ok { g with edges := g.edges ++ es } ∧
      List.Forall₂ (ReadAt T ids) edges es := by
  induction edges generalizing g with
  | nil => exact ⟨[], by rw [hloop.nil, List.append_nil], .nil⟩
  | cons v edges ih =>
    obtain ⟨⟨fields, source, form, rfl, hknown⟩, hrest⟩ := List.forall_mem_cons.mp h
    obtain ⟨e, hload, hsource, hread⟩ := hreads g ids fields source form hknown
    obtain ⟨es, hall, hes⟩ := ih { g with edges := g.edges ++ [e] } hrest
    refine ⟨e :: es, ?_, .cons ⟨fields, form, rfl, hknown.form_eq, hknown.known, hread,
      hsource ▸ hknown.source_mem⟩ hes⟩
    rw [hloop.cons, hload]
    refine hall.trans ?_
    simp

/-! ## What compiles -/

theorem validateTargets_of_valid {ids : List String} {missing : String → CompileError}
    {targets : List Target} (h : ∀ t ∈ targets, validTarget ids t = true) :
    validateTargets ids missing targets = .ok () := by
  induction targets with
  | nil => rfl
  | cons t targets ih =>
    obtain ⟨ht, hrest⟩ := List.forall_mem_cons.mp h
    rw [validateTargets, if_pos ht, ih hrest]

/-- Every name is that of a node or stands for END. -/
theorem valid_resolved {ids : List String} {s : String} (h : s ∈ ids ∨ s = "__end__") :
    validTarget ids (resolveTarget s) = true := by
  unfold resolveTarget
  split
  · rfl
  · rename_i hs
    simpa [validTarget] using h.resolve_right hs

theorem named_of_ne {ids : List String} {s : String} (h : Named ids (.str s)) (hs : s ≠ "__end__") :
    s ∈ ids := by
  obtain ⟨t, ht, hmem⟩ := h
  cases ht
  exact hmem.resolve_right hs

/-- A translation of names, of all but `__end__` to the nodes. -/
def Translates (T : String → Target) : Prop := ∀ s, s ≠ "__end__" → T s = .node s

theorem validateEdge_of_plain (hT : Translates T) {ids : List String} {v : Value} {e : GraphEdge}
    (h : ReadAt T ids v e) (hplain : PlainAt v) : validateEdge ids e = .ok () := by
  obtain ⟨fields, form, rfl, hform, hknown, hread, hsource⟩ := h
  have hends := hplain fields form rfl hform
  cases form with
  | plain target =>
    cases e with
    | plain source t =>
      obtain ⟨s, rfl, rfl⟩ := hread
      obtain ⟨t, ht, hmem⟩ := hknown
      cases ht
      rw [GraphEdge.source] at hsource
      rw [validateEdge, if_pos hsource]
      exact validateTargets_of_valid (by simpa using valid_resolved hmem)
    | conditional c => cases hread
    | parallel p => cases hread
  | parallel targets join =>
    cases e with
    | plain source t => cases hread
    | conditional c => cases hread
    | parallel p =>
      obtain ⟨⟨names, rfl, hnames⟩, -⟩ := hread
      rw [GraphEdge.source] at hsource
      rw [validateEdge, if_pos hsource, hnames]
      refine validateTargets_of_valid fun t ht => ?_
      obtain ⟨s, hs, rfl⟩ := List.mem_map.mp ht
      have hne : s ≠ "__end__" := by
        rintro rfl
        exact hends.1 (List.mem_map_of_mem hs)
      rw [hT s hne]
      simpa [validTarget] using named_of_ne (hknown.1 _ (List.mem_map_of_mem hs)) hne
  | conditional paths =>
    cases e with
    | plain source t => cases hread
    | parallel p => cases hread
    | conditional c =>
      rw [GraphEdge.source] at hsource
      rw [validateEdge, if_pos hsource]
      cases hpaths : c.pathMap with
      | none => rfl
      | some d =>
        refine validateTargets_of_valid fun t ht => ?_
        obtain ⟨⟨k, u⟩, hu, rfl⟩ := List.mem_map.mp ht
        obtain ⟨m, s, rfl, hmem, hs⟩ := hread.2 d k u hpaths ((Dict.mem_entries_iff d k u).mp hu)
        obtain rfl : u = .node s := hs
        have hne : s ≠ "__end__" := by
          rintro rfl
          exact hends m rfl _ hmem rfl
        obtain hnone | ⟨m', heq, -, hnamed⟩ := hknown _ rfl
        · cases hnone
        · cases heq
          simpa [validTarget] using named_of_ne (hnamed _ hmem) hne

theorem validateEdges_of_plain (hT : Translates T) {ids : List String} {edges : List Value}
    {es : List GraphEdge} (h : List.Forall₂ (ReadAt T ids) edges es)
    (hplain : ∀ v ∈ edges, PlainAt v) : validateEdges ids es = .ok () := by
  induction h with
  | nil => rfl
  | cons hread _ ih =>
    obtain ⟨hv, hrest⟩ := List.forall_mem_cons.mp hplain
    rw [validateEdges, validateEdge_of_plain hT hread hv]
    exact ih hrest

/-! ## What denotes the end -/

/-- A fan-out to END fails. -/
theorem lookupNodes_END {G : CompiledGraph} {targets : List Target}
    {found : List (String × GraphNode)} (h : lookupNodes G targets = .ok found) :
    .END ∉ targets := by
  induction targets generalizing found with
  | nil => simp
  | cons t targets ih =>
    cases t with
    | END => cases h
    | node id =>
      rw [lookupNodes] at h
      split at h
      · cases h
      split at h
      · rename_i hrest
        simpa using ih hrest
      · cases h

theorem ends_of_plain {form : Form} {e : GraphEdge} (G : CompiledGraph) (h : form.Read T e)
    (hplain : form.Plain) : form.Ends G e := by
  cases form with
  | plain target =>
    cases e with
    | plain source t =>
      obtain ⟨s, rfl, rfl⟩ := h
      rintro heq
      cases heq
      rfl
    | conditional c => cases h
    | parallel p => cases h
  | parallel targets join =>
    cases e with
    | plain source t => cases h
    | conditional c => cases h
    | parallel p =>
      exact ⟨fun i hi => absurd (List.mem_of_getElem? hi) hplain.1,
        fun hjoin => absurd hjoin hplain.2⟩
  | conditional paths =>
    cases e with
    | plain source t => cases h
    | parallel p => cases h
    | conditional c => exact fun m k hm hmem => absurd rfl (hplain m hm _ hmem)

theorem plain_of_ends {form : Form} {e : GraphEdge} {G : CompiledGraph} (h : form.Read T e)
    (hends : form.Ends G e) : form.Plain := by
  cases form with
  | plain target => trivial
  | parallel targets join =>
    cases e with
    | plain source t => cases h
    | conditional c => cases h
    | parallel p =>
      refine ⟨fun hmem => ?_, fun hjoin => ?_⟩
      · obtain ⟨i, hi⟩ := List.getElem?_of_mem hmem
        obtain ⟨hEnd, found, hfound⟩ := hends.1 i hi
        exact lookupNodes_END hfound (List.mem_of_getElem? hEnd)
      · have hEnd := hends.2 hjoin
        rw [h.2, hjoin] at hEnd
        cases hEnd
  | conditional paths =>
    cases e with
    | plain source t => cases h
    | parallel p => cases h
    | conditional c =>
      rintro m hm ⟨k, v⟩ hmem hv
      obtain rfl : v = .str "__end__" := hv
      obtain ⟨d, hd, hEnd⟩ := hends m k hm hmem
      obtain ⟨d', hd', hnode⟩ := h.1 m k _ hm hmem
      rw [hd] at hd'
      cases hd'
      rw [hEnd] at hnode
      cases hnode

theorem endsAt_iff {ids : List String} {edges : List Value} {es : List GraphEdge}
    (G : CompiledGraph) (h : List.Forall₂ (ReadAt T ids) edges es) :
    List.Forall₂ (EndsAt G) edges es ↔ ∀ v ∈ edges, PlainAt v := by
  induction h with
  | nil => simp
  | cons hread _ ih =>
    rw [List.forall₂_cons, List.forall_mem_cons, ih]
    refine and_congr_left fun _ => ?_
    obtain ⟨fields, form, rfl, hform, -, hread, -⟩ := hread
    constructor
    · rintro hends fields' form' heq hform'
      cases heq
      rw [hform] at hform'
      cases hform'
      exact plain_of_ends hread (hends _ _ rfl hform)
    · rintro hplain fields' form' heq hform'
      cases heq
      rw [hform] at hform'
      cases hform'
      exact ends_of_plain G hread (hplain _ _ rfl hform)

/-! ## Documents -/

/-- What both loaders do once the nodes are there. -/
def finish (loadAll : WorkflowGraph → List Value → Except Raised WorkflowGraph)
    (data : List (String × Value)) (name : Value) (g : WorkflowGraph) : Except Raised Loaded := do
  let edges ← ((data.lookup "edges").getD (.list [])).iterate
  let g ← loadAll g edges
  let g ← withEntryPoint g (data.lookup "entry_point")
  match g.compile (maxTurnsOf (data.lookup "max_turns")) with
  | .error e => .error (graphCompileError e.message)
  | .ok graph => .ok ⟨name, graph⟩

/-- A builder on which no edge was added and no fluent method was called. -/
structure Fresh (g : WorkflowGraph) : Prop where
  edges : g.edges = []
  lastNode : g.lastNode = none

/-- The entry point of the document, with any edges. -/
theorem withEntryPoint_edges {g : WorkflowGraph} {v : Option Value} {entryPoint : String}
    (h : (withEntryPoint g v).map (·.entryPoint) = .ok (some entryPoint)) (es : List GraphEdge) :
    withEntryPoint { g with edges := es } v =
      .ok { g with edges := es, entryPoint := some entryPoint } := by
  cases v with
  | none =>
    have hentry : g.entryPoint = some entryPoint := by
      simpa [withEntryPoint, Except.map] using h
    rw [← hentry]
    rfl
  | some v =>
    cases v with
    | str id =>
      have hid : id = entryPoint := by
        simpa [withEntryPoint, endOf, Except.map, bind, Except.bind,
          WorkflowGraph.setEntryPoint] using h
      rw [← hid]
      rfl
    | _ => cases h

/-- The builder compiles, to the same edges, if each edge passes the check. -/
theorem compile_ok {g : WorkflowGraph} {entryPoint : String}
    (hentry : g.entryPoint = some entryPoint) (hname : entryPoint ≠ "")
    (hmem : entryPoint ∈ g.nodes.keys) (hedges : validateEdges g.nodes.keys g.edges = .ok ())
    (maxTurns : Nat) : ∃ G, g.compile maxTurns = .ok G := by
  have hkeys : g.nodes.keys.isEmpty = false := by
    rw [List.isEmpty_eq_false_iff]
    exact List.ne_nil_of_mem hmem
  have hvalid : g.validate = .ok () := by
    rw [WorkflowGraph.validate, hkeys, hentry]
    simp [hname, hmem, hedges]
  exact ⟨_, by rw [WorkflowGraph.compile, hvalid]⟩

/-- A builder without a last node gets no edge to END. -/
theorem edges_of_unchained {g : WorkflowGraph} (hlast : g.lastNode = none) {maxTurns : Nat}
    {G : CompiledGraph} (h : g.compile maxTurns = .ok G) : G.edges = g.edges := by
  rw [(edges_of_compile h).1, WorkflowGraph.closingEdge, hlast, List.append_nil]

theorem finish_iff (hreads : ReadsEdges resolves T load) (hloop : Loop load loadAll)
    (hT : Translates T) {data : List (String × Value)} {g : WorkflowGraph} {edges : List Value}
    (hfresh : Fresh g) (h : Document resolves data g edges) (name : Value) :
    EndIsEnd (finish loadAll data name g) edges ↔ ∀ v ∈ edges, PlainAt v := by
  obtain ⟨es, hes, hread⟩ := reads_all hreads hloop g h.known
  rw [hfresh.edges, List.nil_append] at hes
  obtain ⟨entryPoint, hentry, hname, hmem⟩ := h.entry
  have hfinish : finish loadAll data name g =
      match WorkflowGraph.compile { g with edges := es, entryPoint := some entryPoint }
        (maxTurnsOf (data.lookup "max_turns")) with
      | .error e => .error (graphCompileError e.message)
      | .ok graph => .ok ⟨name, graph⟩ := by
    unfold finish
    rw [h.listed]
    dsimp only [bind, Except.bind]
    rw [hes]
    dsimp only
    rw [withEntryPoint_edges hentry es]
  have hsame : ∀ G, WorkflowGraph.compile { g with edges := es, entryPoint := some entryPoint }
      (maxTurnsOf (data.lookup "max_turns")) = .ok G → G.edges = es := fun G hG =>
    edges_of_unchained (g := { g with edges := es, entryPoint := some entryPoint })
      hfresh.lastNode hG
  rw [hfinish]
  constructor
  · rintro ⟨loaded, hloaded, hends⟩
    split at hloaded
    · cases hloaded
    · rename_i G hG
      cases hloaded
      rw [hsame G hG] at hends
      exact (endsAt_iff G hread).mp hends
  · intro hplain
    obtain ⟨G, hG⟩ := compile_ok
      (g := { g with edges := es, entryPoint := some entryPoint }) rfl hname hmem
      (validateEdges_of_plain hT hread hplain) (maxTurnsOf (data.lookup "max_turns"))
    rw [hG]
    refine ⟨_, rfl, ?_⟩
    rw [hsame G hG]
    exact (endsAt_iff G hread).mpr hplain

/-! ## The nodes of a document -/

theorem fresh_new (schema : Option Schema) (name : String) :
    Fresh (WorkflowGraph.new schema name) := ⟨rfl, rfl⟩

theorem fresh_addNode {g g' : WorkflowGraph} {nodeId : String} {node : GraphNode}
    {outputKey : Option String} {interruptBefore interruptAfter : Bool} (h : Fresh g)
    (hg : g.addNode nodeId node outputKey interruptBefore interruptAfter = .ok g') : Fresh g' := by
  unfold WorkflowGraph.addNode at hg
  split at hg
  · cases hg
  split at hg
  · cases hg
  · cases hg
    exact ⟨h.edges, h.lastNode⟩

theorem fresh_loadNode {env : Env} {agents : Dict String AgentNode} {g g' : WorkflowGraph}
    {nodeId : String} {v : Value} (h : Fresh g) (hg : loadNode env agents g nodeId v = .ok g') :
    Fresh g' := by
  cases v with
  | dict fields =>
    obtain ⟨node, -, hadd⟩ := (bind_eq_ok_iff _ _ _).mp hg
    split at hadd
    · cases hadd
    · rename_i hadded
      cases hadd
      exact fresh_addNode h hadded
  | _ => cases hg

theorem fresh_loadNodes {env : Env} {agents : Dict String AgentNode} {g g' : WorkflowGraph}
    {nodes : List (String × Value)} (h : Fresh g) (hg : loadNodes env agents g nodes = .ok g') :
    Fresh g' := by
  induction nodes generalizing g with
  | nil =>
    cases hg
    exact h
  | cons node nodes ih =>
    obtain ⟨g₁, hnode, hrest⟩ := (bind_eq_ok_iff _ _ _).mp hg
    exact ih (fresh_loadNode h hnode) hrest

theorem fresh_addFound {g g' : WorkflowGraph} {nodeId : String} {ref : Value} {found : Imported}
    (h : Fresh g) (hg : addFound g nodeId ref found = .ok g') : Fresh g' := by
  obtain ⟨node, -, hadd⟩ := (bind_eq_ok_iff _ _ _).mp hg
  split at hadd
  · cases hadd
  · rename_i hadded
    cases hadd
    exact fresh_addNode h hadded

theorem fresh_loadGraphNode {env : Env} {call : Factory} {g g' : WorkflowGraph}
    {nodeId : String} {v : Value} (h : Fresh g)
    (hg : loadGraphNode env call g nodeId v = .ok g') : Fresh g' := by
  cases v with
  | dict fields =>
    rw [loadGraphNode] at hg
    split at hg
    · obtain ⟨factory, -, hg⟩ := (bind_eq_ok_iff _ _ _).mp hg
      obtain ⟨agent, -, hg⟩ := (bind_eq_ok_iff _ _ _).mp hg
      exact fresh_addFound h hg
    split at hg
    · cases hg
      exact h
    · obtain ⟨func, -, hg⟩ := (bind_eq_ok_iff _ _ _).mp hg
      exact fresh_addFound h hg
  | _ => cases hg

theorem fresh_loadGraphNodes {env : Env} {call : Factory} {g g' : WorkflowGraph}
    {nodes : List (String × Value)} (h : Fresh g)
    (hg : loadGraphNodes env call g nodes = .ok g') : Fresh g' := by
  induction nodes generalizing g with
  | nil =>
    cases hg
    exact h
  | cons node nodes ih =>
    obtain ⟨g₁, hnode, hrest⟩ := (bind_eq_ok_iff _ _ _).mp hg
    exact ih (fresh_loadGraphNode h hnode) hrest

/-! ## Both loaders -/

/-- The text is a document for `load_workflow`, with these edges. -/
def WorkflowDocument (env : Env) (agents : Dict String AgentNode) (path : Path) (text : String)
    (edges : List Value) : Prop :=
  ∃ data schema g, env.parse text = .ok (.dict data) ∧ resolveState env data = .ok schema ∧
    (nodesOf data >>= loadNodes env agents
      (.new schema ((data.lookup "name").getD (.str path.stem)).text)) = .ok g ∧
        Document (ResolvesRef env) data g edges

/-- The text is a document for `load_graph_yaml`. -/
def GraphDocument (env : Env) (call : Factory) (text : String) (edges : List Value) : Prop :=
  ∃ data g, env.parse text = .ok (.dict data) ∧
    (nodesOf data >>= loadGraphNodes env call
      (.new none ((data.lookup "name").getD (.str "dynamic_graph")).text)) = .ok g ∧
        Document (ResolvesCondition env) data g edges

theorem translates_resolveTarget : Translates resolveTarget := fun _ hs => if_neg hs

theorem loadWorkflow_iff {env : Env} {agents : Dict String AgentNode} {path : Path} {text : String}
    {edges : List Value} (h : WorkflowDocument env agents path text edges) :
    EndIsEnd (loadWorkflow env agents path text) edges ↔ ∀ v ∈ edges, PlainAt v := by
  obtain ⟨data, schema, g, hparse, hstate, hnodes, hdoc⟩ := h
  obtain ⟨nodes, hnodesOf, hload⟩ := (bind_eq_ok_iff _ _ _).mp hnodes
  have hfresh := fresh_loadNodes (fresh_new _ _) hload
  cases data with
  | nil =>
    -- Without nodes there is no entry point.
    cases hnodesOf
    cases hload
    obtain ⟨entryPoint, -, -, hmem⟩ := hdoc.entry
    cases hmem
  | cons first rest =>
    have hloader : loadWorkflow env agents path text = finish (loadEdges env) (first :: rest)
        (((first :: rest).lookup "name").getD (.str path.stem)) g := by
      rw [loadWorkflow, hparse]
      dsimp only
      rw [hstate, hnodesOf]
      dsimp only [bind, Except.bind]
      rw [hload]
      rfl
    rw [hloader]
    exact finish_iff (loadEdge_reads env) (loop_edges env) translates_resolveTarget hfresh hdoc _

theorem loadGraphYaml_iff {env : Env} {call : Factory} {text : String} {edges : List Value}
    (h : GraphDocument env call text edges) :
    EndIsEnd (loadGraphYaml env call text) edges ↔ ∀ v ∈ edges, PlainAt v := by
  obtain ⟨data, g, hparse, hnodes, hdoc⟩ := h
  obtain ⟨nodes, hnodesOf, hload⟩ := (bind_eq_ok_iff _ _ _).mp hnodes
  have hfresh := fresh_loadGraphNodes (fresh_new _ _) hload
  have hloader : loadGraphYaml env call text = finish (loadGraphEdges env) data
      ((data.lookup "name").getD (.str "dynamic_graph")) g := by
    rw [loadGraphYaml, hparse]
    dsimp only
    rw [hnodesOf]
    dsimp only [bind, Except.bind]
    rw [hload]
    rfl
  rw [hloader]
  exact finish_iff (loadGraphEdge_reads env) (loop_graphEdges env) (fun _ _ => rfl) hfresh hdoc _

/-! ## Two nodes -/

/-- A function under `orchestra.core`. -/
def stepRef : Imported where
  node := some (.agent (plainAgent "step"))
  condition _ counters := .ok (.none, counters)
  state := none

/-- The nodes `a` and `b`, with these edges. -/
def twoNodes (edges : List Value) : List (String × Value) :=
  let node := Value.dict [("type", .str "function"), ("ref", .str "orchestra.core.step")]
  [("nodes", .dict [("a", node), ("b", node)]), ("edges", .list edges)]

def twoNodesEnv (edges : List Value) : Env where
  parse _ := .ok (.dict (twoNodes edges))
  importRef _ := .ok stepRef
  allowedPrefixes := ["orchestra.core."]
  buildState _ := .error ⟨"TypeError", "", false⟩
  makeAgent _ := .error ⟨"ValidationError", "", false⟩
  toolRegistry := .empty
  defaults := none

def twoNodesGraph (name : String) : WorkflowGraph :=
  { WorkflowGraph.new none name with
    nodes := .ofList [("a", .agent (plainAgent "step")), ("b", .agent (plainAgent "step"))]
    entryPoint := some "a" }

theorem twoNodes_document {resolves : List (String × Value) → Prop} {name : String}
    {edges : List Value} (h : ∀ v ∈ edges, ∃ fields source form, v = .dict fields ∧
      EdgeKnown resolves ["a", "b"] fields source form) :
    Document resolves (twoNodes edges) (twoNodesGraph name) edges :=
  ⟨rfl, h, "a", rfl, by decide, List.mem_cons_self⟩

theorem twoNodes_workflow {edges : List Value} (h : ∀ v ∈ edges, ∃ fields source form,
    v = .dict fields ∧ EdgeKnown (ResolvesRef (twoNodesEnv edges)) ["a", "b"] fields source form) :
    WorkflowDocument (twoNodesEnv edges) .empty pipelinePath "" edges :=
  ⟨twoNodes edges, none, twoNodesGraph "pipeline", rfl, rfl, rfl, twoNodes_document h⟩

theorem twoNodes_graph {edges : List Value} (h : ∀ v ∈ edges, ∃ fields source form,
    v = .dict fields ∧
      EdgeKnown (ResolvesCondition (twoNodesEnv edges)) ["a", "b"] fields source form) :
    GraphDocument (twoNodesEnv edges) (fun f _ => .ok f) "" edges :=
  ⟨twoNodes edges, twoNodesGraph "dynamic_graph", rfl, rfl, twoNodes_document h⟩

/-- A fan-out to `b` that joins at the end. -/
def joinFields : List (String × Value) :=
  [("source", .str "a"), ("target", .list [.str "b"]), ("join", .str "__end__")]

theorem joinFields_known (resolves : List (String × Value) → Prop) :
    ∀ v ∈ [Value.dict joinFields], ∃ fields source form, v = .dict fields ∧
      EdgeKnown resolves ["a", "b"] fields source form := by
  intro v hv
  rw [List.mem_singleton] at hv
  refine ⟨joinFields, "a", .parallel [.str "b"] (some (.str "__end__")), hv, ?_⟩
  refine ⟨rfl, by decide, rfl, ⟨?_, ?_⟩, nofun⟩
  · intro w hw
    rw [List.mem_singleton] at hw
    exact ⟨"b", hw, .inl (by decide)⟩
  · rintro w ⟨⟩
    exact .inr ⟨"__end__", rfl, .inr rfl⟩

/-- Both loaders take `__end__` for the name of the join node. -/
theorem a_join_at_the_end_is_no_end :
    WorkflowDocument (twoNodesEnv [.dict joinFields]) .empty pipelinePath "" [.dict joinFields] ∧
      ¬ EndIsEnd (loadWorkflow (twoNodesEnv [.dict joinFields]) .empty pipelinePath "")
        [.dict joinFields] ∧
      ¬ EndIsEnd (loadGraphYaml (twoNodesEnv [.dict joinFields]) (fun f _ => .ok f) "")
        [.dict joinFields] := by
  have hplain : ¬ ∀ v ∈ [Value.dict joinFields], PlainAt v := fun h =>
    (h _ List.mem_cons_self joinFields _ rfl rfl).2 rfl
  have hdoc := twoNodes_workflow (joinFields_known _)
  refine ⟨hdoc, fun h => hplain ((loadWorkflow_iff hdoc).mp h), fun h => hplain ?_⟩
  exact (loadGraphYaml_iff (twoNodes_graph (joinFields_known _))).mp h

/-- In each of the two loaders `__end__` is the end, in a document whose nodes are there and whose
references resolve, if and only if no edge has it anywhere but as the target of a plain edge. -/
theorem end_is_end_iff (env : Env) :
    (∀ agents path text edges, WorkflowDocument env agents path text edges →
      (EndIsEnd (loadWorkflow env agents path text) edges ↔ ∀ v ∈ edges, PlainAt v)) ∧
      ∀ call text edges, GraphDocument env call text edges →
        (EndIsEnd (loadGraphYaml env call text) edges ↔ ∀ v ∈ edges, PlainAt v) :=
  ⟨fun _ _ _ _ => loadWorkflow_iff, fun _ _ _ => loadGraphYaml_iff⟩

/-- A plain edge to the end. -/
def endFields : List (String × Value) := [("source", .str "a"), ("target", .str "__end__")]

theorem endFields_known (resolves : List (String × Value) → Prop) :
    ∀ v ∈ [Value.dict endFields], ∃ fields source form, v = .dict fields ∧
      EdgeKnown resolves ["a", "b"] fields source form := by
  intro v hv
  rw [List.mem_singleton] at hv
  exact ⟨endFields, "a", .plain (.str "__end__"), hv, rfl, by decide, rfl,
    ⟨"__end__", rfl, .inr rfl⟩, nofun⟩

theorem a_plain_edge_ends_the_workflow :
    EndIsEnd (loadWorkflow (twoNodesEnv [.dict endFields]) .empty pipelinePath "")
        [.dict endFields] ∧
      EndIsEnd (loadGraphYaml (twoNodesEnv [.dict endFields]) (fun f _ => .ok f) "")
        [.dict endFields] := by
  have hplain : ∀ v ∈ [Value.dict endFields], PlainAt v := by
    intro v hv fields form hfields hform
    rw [List.mem_singleton] at hv
    subst hv
    cases hfields
    cases hform
    trivial
  have h := end_is_end_iff (twoNodesEnv [.dict endFields])
  exact ⟨(h.1 _ _ _ _ (twoNodes_workflow (endFields_known _))).mpr hplain,
    (h.2 _ _ _ (twoNodes_graph (endFields_known _))).mpr hplain⟩

end orchestra.yaml_ends
