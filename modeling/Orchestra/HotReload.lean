-- The reload of a changed agent file (`discovery/hotreload.py`): the agent is loaded anew, the
-- workflows that have its name in their files are compiled, and only then they are registered.
import Orchestra.Agent
import Orchestra.Fluent
import Orchestra.Lib.Fallible
import Orchestra.Lib.Text

open dicts fallible texts orchestra.state orchestra.edges orchestra.nodes orchestra.compiled
open orchestra.graph

namespace orchestra.hot_reload

/-! ## Files and what they name -/

structure Path where
  parent : String
  name : String
deriving DecidableEq

/-- `str(path)` -/
def Path.text (path : Path) : String := path.parent ++ "/" ++ path.name

/-- `path.stem` -/
def Path.stem (path : Path) : String :=
  let letters := path.name.toList
  let suffix := (letters.reverse.takeWhile (· ≠ '.')).length
  if suffix = 0 ∨ letters.length ≤ suffix + 1 then path.name
  else String.ofList (letters.take (letters.length - suffix - 1))

/-- The values that `BaseAgent` is made with. -/
structure AgentFields where
  name : Value
  model : Value
  systemPrompt : Value
  tools : List agent.Tool
  maxIterations : Value
  temperature : Value

/-- What a dotted path names, as each use of it takes it: the node that it becomes, the condition
of an edge, a state class. -/
structure Imported where
  node : Option GraphNode
  condition : PyDict → Counters → Except Raised (Routed × Counters)
  state : Option Schema

/-- What the loaders are given. `parse` reads YAML, `importRef` imports a module and takes the
attribute, `buildState` is `build_state_class`, and `makeAgent` is `BaseAgent`, whose fields
pydantic checks. An agent stands for the node that it becomes. -/
structure Env where
  parse : String → Except String Value
  importRef : String → Except Raised Imported
  allowedPrefixes : List String
  buildState : Value → Except Raised Schema
  makeAgent : AgentFields → Except Raised AgentNode
  toolRegistry : Dict String agent.Tool
  defaults : Option PyDict

/-! ## The agent loader -/

def agentLoadError (message : String) : Raised := ⟨"AgentLoadError", message, false⟩

/-- The error of a value that has not the attribute `name`. -/
def attributeError (v : Value) (name : String) : Raised :=
  ⟨"AttributeError", v.repr ++ " has no attribute '" ++ name ++ "'", false⟩

/-- `_AGENT_DEFAULTS`. A float stands as an object with its text. -/
def agentDefaults : List (String × Value) :=
  [("model", .str "gpt-4o-mini"), ("temperature", .obj "float" [("text", .str "0.7")]),
    ("max_iterations", .int 10), ("system_prompt", .str "You are a helpful assistant.")]

/-- `_get`: the file, then the defaults of the project, then those of the class. -/
def cascade (env : Env) (data : List (String × Value)) (key : String) : Value :=
  match data.lookup key with
  | some v => v
  | none =>
    match env.defaults.bind (·.get? key) with
    | some v => v
    | none => (agentDefaults.lookup key).getD .none

/-- The loop over the names of tools. -/
def resolveTools (env : Env) (agentName : Value) : List Value → Except Raised (List agent.Tool)
  | [] => .ok []
  | .str name :: rest =>
    match env.toolRegistry.get? name with
    | some tool => do
      let tools ← resolveTools env agentName rest
      .ok (tool :: tools)
    | none => .error ⟨"ToolNotFoundError", "Agent '" ++ agentName.text ++ "' references tool '" ++
        name ++ "' which was not found. Available: " ++
          listText (env.toolRegistry.keys.mergeSort (· ≤ ·)), false⟩
  | .list _ :: _ | .dict _ :: _ => .error (typeError "unhashable type")
  | name :: _ => .error ⟨"ToolNotFoundError", "Agent '" ++ agentName.text ++
      "' references tool '" ++ name.text ++ "' which was not found. Available: " ++
        listText (env.toolRegistry.keys.mergeSort (· ≤ ·)), false⟩

/-- `load_agent`, on the text of the file. `none` is a file that cannot be read. -/
def loadAgent (env : Env) (path : Path) (text : Option String) : Except Raised AgentNode :=
  match text.map env.parse with
  | none => .error (agentLoadError ("Cannot parse " ++ path.text))
  | some (.error message) =>
    .error (agentLoadError ("Cannot parse " ++ path.text ++ ": " ++ message))
  | some (.ok (.dict (first :: rest))) =>
    let data := first :: rest
    match ["output_type_ref", "output_type"].find? fun key => (data.lookup key).isSome with
    | some key => .error (agentLoadError ("'" ++ key ++ "' is not yet supported in YAML agent " ++
        "definitions. Define the agent in Python and register it manually."))
    | none => do
      let name := (data.lookup "name").getD (.str path.stem)
      let toolNames ← ((data.lookup "tools").getD (.list [])).iterate
      let tools ← resolveTools env name toolNames
      env.makeAgent
        { name
          model := cascade env data "model"
          systemPrompt := cascade env data "system_prompt"
          tools
          maxIterations := cascade env data "max_iterations"
          temperature := cascade env data "temperature" }
  | some (.ok _) =>
    .error (agentLoadError ("Agent YAML " ++ path.text ++ " is empty or not a mapping"))

/-! ## The workflow loader -/

def workflowLoadError (message : String) : Raised := ⟨"WorkflowLoadError", message, false⟩

def graphCompileError (message : String) : Raised := ⟨"GraphCompileError", message, true⟩

/-- `resolve_ref` -/
def resolveRef (env : Env) (ref : String) : Except Raised Imported :=
  if env.allowedPrefixes.any (startsWith ref) then
    match env.importRef ref with
    | .error e =>
      if ["ValueError", "ImportError", "ModuleNotFoundError", "AttributeError"].elem e.type then
        .error ⟨"ImportError", "Failed to resolve ref '" ++ ref ++ "': " ++ e.message, false⟩
      else .error e
    | .ok found => .ok found
  else .error ⟨"ImportError", "Ref '" ++ ref ++ "' is not in the security allowlist.", false⟩

/-- `_check_lib_ref` -/
def checkLibRef : Value → Except Raised String
  | .str ref =>
    if startsWith ref "lib." then
      .error (workflowLoadError ("Ref '" ++ ref ++ "' starts with 'lib.' which requires manual " ++
        "PYTHONPATH configuration. Orchestra does not modify sys.path automatically. See " ++
          "documentation for safe lib/ usage."))
    else .ok ref
  | v => .error (attributeError v "startswith")

/-- A ref that is no agent. Its `ImportError` becomes a `WorkflowLoadError` with the text of the
use. -/
def resolveAs (env : Env) (ref : Value) (message : String → String) : Except Raised Imported := do
  let ref ← checkLibRef ref
  match resolveRef env ref with
  | .error e =>
    if e.type = "ImportError" then .error (workflowLoadError (message e.message)) else .error e
  | .ok found => .ok found

/-- `_resolve_state` -/
def resolveState (env : Env) (data : List (String × Value)) : Except Raised (Option Schema) :=
  match data.lookup "state_ref", data.lookup "state" with
  | some ref, _ => do
    let found ← resolveAs env ref fun cause =>
      "Cannot resolve state_ref '" ++ ref.text ++ "': " ++ cause
    match found.state with
    | some schema => .ok (some schema)
    | none => .error (workflowLoadError ("state_ref '" ++ ref.text ++
        "' does not point to a WorkflowState subclass"))
  | none, some state => do
    let schema ← env.buildState state
    .ok (some schema)
  | none, none => .ok none

/-- `_wrap_as_node` on what a ref names. -/
def wrapped (found : Imported) (ref : Value) : Except Raised GraphNode :=
  match found.node with
  | some node => .ok node
  | none => .error (graphCompileError ("Cannot wrap '" ++ ref.text ++ "' as a graph node.\n" ++
      "  Expected: Agent, async function, or GraphNode instance."))

/-- The agent of a node: one of the registry, or what the ref names. -/
def agentNode (env : Env) (agents : Dict String AgentNode) (nodeId : String) :
    Value → Except Raised GraphNode
  | .str ref =>
    match agents.get? ref with
    | some agent => .ok (.agent agent)
    | none => do
      let found ← resolveAs env (.str ref) fun _ =>
        "Node '" ++ nodeId ++ "' references agent '" ++ ref ++ "' which was not found in the " ++
          "agent registry or as a dotted path. Available agents: " ++
            listText (agents.keys.mergeSort (· ≤ ·))
      wrapped found (.str ref)
  | .list _ | .dict _ => .error (typeError "unhashable type")
  | v => .error (attributeError v "startswith")

def functionNode (env : Env) (nodeId : String) (ref : Value) : Except Raised GraphNode := do
  let found ← resolveAs env ref fun cause =>
    "Node '" ++ nodeId ++ "' cannot resolve function ref '" ++ ref.text ++ "': " ++ cause
  wrapped found ref

/-- An output key that is not a text is left out. -/
def outputKeyOf : Option Value → Option String
  | some (.str key) => some key
  | _ => none

/-- What the node of a file runs. -/
def nodeOf (env : Env) (agents : Dict String AgentNode) (nodeId : String)
    (fields : List (String × Value)) : Except Raised GraphNode :=
  let nodeType := (fields.lookup "type").getD (.str "agent")
  let ref := (fields.lookup "ref").getD (.str nodeId)
  if nodeType = .str "agent" then agentNode env agents nodeId ref
  else if nodeType = .str "function" then functionNode env nodeId ref
  else .error (workflowLoadError ("Unknown node type '" ++ nodeType.text ++ "' for node '" ++
    nodeId ++ "'. Supported: agent, function"))

/-- One node of the file. -/
def loadNode (env : Env) (agents : Dict String AgentNode) (g : WorkflowGraph) (nodeId : String) :
    Value → Except Raised WorkflowGraph
  | .dict fields => do
    let node ← nodeOf env agents nodeId fields
    match g.addNode nodeId node (outputKeyOf (fields.lookup "output_key")) false false with
    | .error e => .error (graphCompileError e.message)
    | .ok g => .ok g
  | v => .error (attributeError v "get")

def loadNodes (env : Env) (agents : Dict String AgentNode) :
    WorkflowGraph → List (String × Value) → Except Raised WorkflowGraph
  | g, [] => .ok g
  | g, (nodeId, nodeData) :: rest => do
    let g ← loadNode env agents g nodeId nodeData
    loadNodes env agents g rest

/-- The source of an edge, or an end of it. One that is not a text is in no graph, which `compile`
says later on. -/
def endOf : Value → Except Raised String
  | .str id => .ok id
  | v => .error (graphCompileError ("Edge end '" ++ v.text ++ "' not found in nodes."))

/-- `_resolve_target` -/
def resolveTarget (target : String) : Target :=
  if target = "__end__" then .END else .node target

/-- The join node, which is not checked. -/
def joinOf : Option Value → Option Target
  | none | some .none => none
  | some v => some (.node v.text)

/-- The targets of a path map. -/
def loadPaths : List (String × Value) → Except Raised (List (String × Target))
  | [] => .ok []
  | (answer, target) :: rest => do
    let target ← endOf target
    let rest ← loadPaths rest
    .ok ((answer, .node target) :: rest)

/-- The path map of a conditional edge. One that is false is not looked at. -/
def pathMapOf : Option Value → Except Raised (Option (Dict String Target))
  | none => .ok (some .empty)
  | some (.dict paths) => do
    let paths ← loadPaths paths
    .ok (some (.ofList paths))
  | some v => if v.truthy then .error (attributeError v "values") else .ok none

/-- The targets of a parallel edge. -/
def loadTargets : List Value → Except Raised (List Target)
  | [] => .ok []
  | target :: rest => do
    let target ← endOf target
    let rest ← loadTargets rest
    .ok (resolveTarget target :: rest)

def keyError (key : String) : Raised := ⟨"KeyError", "'" ++ key ++ "'", false⟩

/-- One edge of the file. -/
def loadEdge (env : Env) (g : WorkflowGraph) : Value → Except Raised WorkflowGraph
  | .dict fields =>
    match fields.lookup "source", fields.lookup "target" with
    | none, _ => .error (keyError "source")
    | some _, none => .error (keyError "target")
    | some source, some (.list targets) => do
      let source ← endOf source
      let targets ← loadTargets targets
      let joinNode := joinOf (fields.lookup "join")
      .ok { g with edges := g.edges ++ [.parallel ⟨source, targets, joinNode⟩] }
    | some source, some target =>
      if fields.lookup "type" = some (.str "conditional") then
        let condition := (fields.lookup "condition_ref").getD .none
        if condition.truthy then do
          let found ← resolveAs env condition fun cause =>
            "Cannot resolve condition_ref '" ++ condition.text ++ "': " ++ cause
          let pathMap ← pathMapOf (fields.lookup "paths")
          let source ← endOf source
          .ok (g.addConditionalEdge source found.condition pathMap)
        else .error (workflowLoadError ("Conditional edge from '" ++ source.text ++
          "' missing 'condition_ref'"))
      else do
        let source ← endOf source
        let target ← endOf target
        .ok (g.addEdge source (resolveTarget target))
  | v => .error (typeError (v.repr ++ " has no key 'source'"))

def loadEdges (env : Env) : WorkflowGraph → List Value → Except Raised WorkflowGraph
  | g, [] => .ok g
  | g, edge :: rest => do
    let g ← loadEdge env g edge
    loadEdges env g rest

/-- The entry point of the file. One that is not a text is in no graph. -/
def withEntryPoint (g : WorkflowGraph) : Option Value → Except Raised WorkflowGraph
  | none => .ok g
  | some entryPoint => do
    let nodeId ← endOf entryPoint
    .ok (g.setEntryPoint nodeId)

/-- A number of turns that is not an integer is left out. -/
def maxTurnsOf : Option Value → Nat
  | some (.int turns) => turns.toNat
  | _ => 50

/-- A compiled graph, with its name as the file has it. -/
structure Loaded where
  name : Value
  graph : CompiledGraph

/-- The nodes of a file, by their ids. -/
def nodesOf (data : List (String × Value)) : Except Raised (List (String × Value)) :=
  match data.lookup "nodes" with
  | none => .ok []
  | some (.dict nodes) => .ok nodes
  | some v => .error (attributeError v "items")

/-- `load_workflow`, on the text of the file. -/
def loadWorkflow (env : Env) (agents : Dict String AgentNode) (path : Path) (text : String) :
    Except Raised Loaded :=
  match env.parse text with
  | .error message =>
    .error (workflowLoadError ("Cannot parse " ++ path.text ++ ": " ++ message))
  | .ok (.dict (first :: rest)) => do
    let data := first :: rest
    let schema ← resolveState env data
    let name := (data.lookup "name").getD (.str path.stem)
    let nodes ← nodesOf data
    let g ← loadNodes env agents (.new schema name.text) nodes
    let edges ← ((data.lookup "edges").getD (.list [])).iterate
    let g ← loadEdges env g edges
    let g ← withEntryPoint g (data.lookup "entry_point")
    match g.compile (maxTurnsOf (data.lookup "max_turns")) with
    | .error e => .error (graphCompileError e.message)
    | .ok graph => .ok ⟨name, graph⟩
  | .ok _ => .error (workflowLoadError ("Workflow YAML " ++ path.text ++
      " is empty or not a mapping"))

/-! ## The reload -/

/-- A registered graph, and the file that it was built from. The file is not held in the code. -/
structure Entry where
  graph : CompiledGraph
  file : Option Path

/-- A `DiscoveryHotReloader` with the registries, over the files as they are. `some none` is a
file that cannot be read. A registry finds a name by its value: `True` is the name `1`. -/
structure Reloader where
  registry : Dict Value Entry
  agentRegistry : Dict String AgentNode
  workflowFiles : Dict String Path
  files : Path → Option (Option String)

/-- `compiled._name or wf_stem` -/
def registryName (loaded : Loaded) (stem : String) : Value :=
  if loaded.name.truthy then loaded.name.normal else .str stem

/-- `hash(name)` is there. -/
def hashable : Value → Bool
  | .list _ | .dict _ => false
  | _ => true

/-- The first pass: every workflow with the name of the agent in its file is compiled. -/
def stage (env : Env) (files : Path → Option (Option String)) (agents : Dict String AgentNode)
    (agentName : String) : List (String × Path) → Except Raised (List (Value × Entry))
  | [] => .ok []
  | (stem, path) :: rest =>
    match files path with
    | none => stage env files agents agentName rest
    | some none => .error ⟨"UnicodeDecodeError", path.text, false⟩
    | some (some text) =>
      if contains text agentName then do
        let loaded ← loadWorkflow env agents path text
        let staged ← stage env files agents agentName rest
        .ok ((registryName loaded stem, ⟨loaded.graph, some path⟩) :: staged)
      else stage env files agents agentName rest

/-- The second pass: the graphs that are registered, and whether all of them are. A name that has
no hash ends it. -/
def commit : List (Value × Entry) → List (Value × Entry) × Bool
  | [] => ([], true)
  | (name, entry) :: rest =>
    if hashable name then ((name, entry) :: (commit rest).1, (commit rest).2) else ([], false)

/-- What a reload leaves, the graphs that it registered, and whether it came to its end. -/
structure Reload where
  after : Reloader
  registered : List (Value × Entry)
  completed : Bool

/-- The registry of agents with a reloaded one, under its name and under the stem of its file. -/
def withAgent (agents : Dict String AgentNode) (path : Path) (agent : AgentNode) :
    Dict String AgentNode :=
  let agents := agents.set agent.agentName agent
  if path.stem ≠ agent.agentName then agents.set path.stem agent else agents

/-- The agent of a file as it is now. -/
def agentOf (env : Env) (s : Reloader) (path : Path) : Except Raised AgentNode :=
  loadAgent env path ((s.files path).getD none)

/-- `_reload_agent` with `_recompile_affected_workflows` -/
def reloadAgent (env : Env) (s : Reloader) (path : Path) : Reload :=
  match agentOf env s path with
  | .error _ => ⟨s, [], false⟩
  | .ok agent =>
    let s := { s with agentRegistry := withAgent s.agentRegistry path agent }
    match stage env s.files s.agentRegistry agent.agentName s.workflowFiles.entries with
    | .error _ => ⟨s, [], false⟩
    | .ok staged =>
      let (registered, completed) := commit staged
      ⟨{ s with registry := s.registry.setAll registered }, registered, completed⟩

/-! ## All or nothing -/

/-- The agent that a node of a file refers to. -/
def agentRef (nodeId : String) : Value → Option String
  | .dict fields =>
    if (fields.lookup "type").getD (.str "agent") = .str "agent" then
      match (fields.lookup "ref").getD (.str nodeId) with
      | .str ref => some ref
      | _ => none
    else none
  | _ => none

/-- The nodes of a file that refer to agents. -/
def agentRefs : Value → List (String × String)
  | .dict data =>
    match data.lookup "nodes" with
    | some (.dict nodes) => nodes.filterMap fun e => (agentRef e.1 e.2).map (e.1, ·)
    | _ => []
  | _ => []

/-- The node is this agent. -/
def IsAgent (agent : AgentNode) (node : Option GraphNode) : Prop :=
  ∃ n, node = some (.agent n) ∧ n.agentName = agent.agentName ∧ n.run = agent.run

/-- The graph runs the agent at every node for which its file refers to one of the names. -/
def RunsAgent (env : Env) (files : Path → Option (Option String)) (names : List String)
    (agent : AgentNode) (entry : Entry) : Prop :=
  ∀ path text data, entry.file = some path → files path = some (some text) →
    env.parse text = .ok data → ∀ e ∈ agentRefs data, e.2 ∈ names →
      IsAgent agent (entry.graph.nodes.get? e.1)

/-- A reload that does not come to its end registers nothing, or every registered workflow whose
file refers to the agent, by its name or by the stem of its file, runs the agent as it is now. -/
def AllOrNothing (env : Env) (s : Reloader) (path : Path) : Prop :=
  let reload := reloadAgent env s path
  (reload.completed = false ∧ reload.registered = [] ∧ reload.after.registry = s.registry) ∨
    ∀ agent, agentOf env s path = .ok agent → ∀ name entry,
      reload.after.registry.get? name = some entry →
        RunsAgent env s.files [agent.agentName, path.stem] agent entry

/-! ## What a loaded workflow runs -/

section

variable {env : Env} {agents : Dict String AgentNode} {g g' : WorkflowGraph}

theorem isAgent_node (agent : AgentNode) (outputKey : Option String) :
    IsAgent agent (some (withOutputKey outputKey (wrapAsNode false false (.agent agent)))) := by
  simp only [wrapAsNode, withOutputKey]
  split
  · exact ⟨_, rfl, rfl, rfl⟩
  · exact ⟨_, rfl, rfl, rfl⟩

/-- A loaded node is new to the graph, and is the agent that it refers to. -/
theorem loadNode_ok {nodeId : String} {nodeData : Value}
    (h : loadNode env agents g nodeId nodeData = .ok g') :
    ∃ node, nodeId ∉ g.nodes.keys ∧ g'.nodes = g.nodes.set nodeId node ∧
      ∀ ref agent, agentRef nodeId nodeData = some ref → agents.get? ref = some agent →
        IsAgent agent (some node) := by
  cases nodeData with
  | dict fields =>
    unfold loadNode at h
    obtain ⟨node, hnode, h⟩ := (bind_eq_ok_iff _ _ _).mp h
    unfold WorkflowGraph.addNode at h
    by_cases hstart : nodeId = START
    · rw [if_pos hstart] at h
      cases h
    · rw [if_neg hstart] at h
      by_cases hnew : nodeId ∈ g.nodes.keys
      · rw [if_pos hnew] at h
        cases h
      · rw [if_neg hnew] at h
        cases h
        refine ⟨_, hnew, rfl, fun ref agent href hagent => ?_⟩
        simp only [agentRef] at href
        split at href
        · rename_i htype
          unfold nodeOf at hnode
          dsimp only at hnode
          rw [if_pos htype] at hnode
          split at href
          · rename_i text hfield
            obtain rfl := Option.some.inj href
            rw [hfield, agentNode, hagent] at hnode
            obtain rfl := Except.ok.inj hnode
            exact isAgent_node agent _
          · cases href
        · cases href
  | _ => cases h

/-- Loaded nodes stay, and each one that refers to an agent of the registry is that agent. -/
theorem loadNodes_ok {nodes : List (String × Value)} (h : loadNodes env agents g nodes = .ok g') :
    (∀ id node, g.nodes.get? id = some node → g'.nodes.get? id = some node) ∧
      ∀ e ∈ nodes, ∀ ref agent, agentRef e.1 e.2 = some ref → agents.get? ref = some agent →
        IsAgent agent (g'.nodes.get? e.1) := by
  induction nodes generalizing g with
  | nil =>
    cases h
    exact ⟨fun _ _ hnode => hnode, fun e he => by cases he⟩
  | cons e rest ih =>
    obtain ⟨nodeId, nodeData⟩ := e
    obtain ⟨mid, hmid, hrest⟩ := (bind_eq_ok_iff _ _ _).mp h
    obtain ⟨node, hnew, hset, hagent⟩ := loadNode_ok hmid
    obtain ⟨hkeep, hnodes⟩ := ih hrest
    constructor
    · intro id old hold
      refine hkeep id old ?_
      have hne : nodeId ≠ id := by
        rintro rfl
        exact hnew ((Dict.mem_keys_iff _ _).mpr ⟨old, hold⟩)
      rw [hset, Dict.get?_set_ne _ _ hne]
      exact hold
    · intro e he ref agent href hget
      rcases List.mem_cons.mp he with rfl | he
      · rw [hkeep nodeId node (by rw [hset, Dict.get?_set_self])]
        exact hagent ref agent href hget
      · exact hnodes e he ref agent href hget

theorem loadEdge_nodes {edge : Value} (h : loadEdge env g edge = .ok g') : g'.nodes = g.nodes := by
  cases edge with
  | dict fields =>
    simp only [loadEdge] at h
    split at h
    · cases h
    · cases h
    · obtain ⟨source, -, h⟩ := (bind_eq_ok_iff _ _ _).mp h
      obtain ⟨targets, -, h⟩ := (bind_eq_ok_iff _ _ _).mp h
      cases h
      rfl
    · split at h
      · split at h
        · obtain ⟨found, -, h⟩ := (bind_eq_ok_iff _ _ _).mp h
          obtain ⟨pathMap, -, h⟩ := (bind_eq_ok_iff _ _ _).mp h
          obtain ⟨source, -, h⟩ := (bind_eq_ok_iff _ _ _).mp h
          cases h
          rfl
        · cases h
      · obtain ⟨source, -, h⟩ := (bind_eq_ok_iff _ _ _).mp h
        obtain ⟨target, -, h⟩ := (bind_eq_ok_iff _ _ _).mp h
        cases h
        rfl
  | _ => cases h

theorem loadEdges_nodes {edges : List Value} (h : loadEdges env g edges = .ok g') :
    g'.nodes = g.nodes := by
  induction edges generalizing g with
  | nil =>
    cases h
    rfl
  | cons edge rest ih =>
    obtain ⟨mid, hmid, hrest⟩ := (bind_eq_ok_iff _ _ _).mp h
    rw [ih hrest, loadEdge_nodes hmid]

theorem withEntryPoint_nodes {entryPoint : Option Value}
    (h : withEntryPoint g entryPoint = .ok g') : g'.nodes = g.nodes := by
  cases entryPoint with
  | none =>
    cases h
    rfl
  | some v =>
    obtain ⟨nodeId, -, hset⟩ := (bind_eq_ok_iff _ _ _).mp h
    cases hset
    rfl

theorem compile_nodes {maxTurns : Nat} {G : CompiledGraph} (h : g.compile maxTurns = .ok G) :
    G.nodes = g.nodes := by
  unfold WorkflowGraph.compile at h
  split at h
  · cases h
  · cases h
    rfl

/-- A workflow runs the agents of the registry that its file refers to. -/
theorem loadWorkflow_runs {path : Path} {text : String} {loaded : Loaded} {data : Value}
    (h : loadWorkflow env agents path text = .ok loaded) (hdata : env.parse text = .ok data)
    {e : String × String} (he : e ∈ agentRefs data) {agent : AgentNode}
    (hagent : agents.get? e.2 = some agent) : IsAgent agent (loaded.graph.nodes.get? e.1) := by
  unfold agentRefs at he
  split at he
  · rename_i fields
    split at he
    · rename_i nodes hnodes
      obtain ⟨⟨nodeId, nodeData⟩, hmem, hsome⟩ := List.mem_filterMap.mp he
      obtain ⟨ref, href, rfl⟩ := Option.map_eq_some_iff.mp hsome
      unfold loadWorkflow at h
      rw [hdata] at h
      cases fields with
      | nil => cases hnodes
      | cons first rest =>
        obtain ⟨schema, -, h⟩ := (bind_eq_ok_iff _ _ _).mp h
        obtain ⟨found, hfound, h⟩ := (bind_eq_ok_iff _ _ _).mp h
        obtain ⟨withNodes, hload, h⟩ := (bind_eq_ok_iff _ _ _).mp h
        obtain ⟨edges, -, h⟩ := (bind_eq_ok_iff _ _ _).mp h
        obtain ⟨withEdges, hedges, h⟩ := (bind_eq_ok_iff _ _ _).mp h
        obtain ⟨whole, hentry, h⟩ := (bind_eq_ok_iff _ _ _).mp h
        split at h
        · cases h
        · rename_i graph hcompile
          cases h
          rw [compile_nodes hcompile, withEntryPoint_nodes hentry, loadEdges_nodes hedges]
          unfold nodesOf at hfound
          rw [hnodes] at hfound
          cases hfound
          exact (loadNodes_ok hload).2 _ hmem ref agent href hagent
    · cases he
  · cases he

end

/-! ## Which workflows are compiled -/

/-- The tracked files that have the name in them, each with its text. -/
def affected (files : Path → Option (Option String)) (agentName : String)
    (tracked : List (String × Path)) : List (String × Path × String) :=
  tracked.filterMap fun e =>
    match files e.2 with
    | some (some text) => if contains text agentName then some (e.1, e.2, text) else none
    | _ => none

/-- The name under which a file is registered, when it compiles. -/
def builtName (env : Env) (agents : Dict String AgentNode) (f : String × Path × String) :
    Except Raised Value :=
  (loadWorkflow env agents f.2.1 f.2.2).map fun loaded => registryName loaded f.1

/-- One of the files is compiled and registered under the name, and no file before it has a name
without a hash. -/
def Rebuilt (env : Env) (agents : Dict String AgentNode) (fs : List (String × Path × String))
    (name : Value) : Prop :=
  ∃ before f after, fs = before ++ f :: after ∧ builtName env agents f = .ok name ∧
    ∀ b ∈ before ++ [f], ∃ n, builtName env agents b = .ok n ∧ hashable n = true

/-- When a reload with this agent is all or nothing: a tracked file cannot be read, an affected one
does not compile, the first one has a name without a hash, or each registered workflow is built
anew or runs the agent already where its file refers to it. -/
inductive Covered (env : Env) (s : Reloader) (path : Path) (agent : AgentNode) : Prop
  | unreadable {e : String × Path} (he : e ∈ s.workflowFiles.entries)
    (hbad : s.files e.2 = some none) : Covered env s path agent
  | refused {f : String × Path × String} {e : Raised}
    (hf : f ∈ affected s.files agent.agentName s.workflowFiles.entries)
    (hbad : builtName env (withAgent s.agentRegistry path agent) f = .error e) :
    Covered env s path agent
  | unhashable {f : String × Path × String} {rest : List (String × Path × String)} {name : Value}
    (hfirst : affected s.files agent.agentName s.workflowFiles.entries = f :: rest)
    (hname : builtName env (withAgent s.agentRegistry path agent) f = .ok name)
    (hbad : hashable name = false) : Covered env s path agent
  | reached (h : ∀ name entry, s.registry.get? name = some entry →
      Rebuilt env (withAgent s.agentRegistry path agent)
        (affected s.files agent.agentName s.workflowFiles.entries) name ∨
      RunsAgent env s.files [agent.agentName, path.stem] agent entry) : Covered env s path agent

section

variable {env : Env} {files : Path → Option (Option String)} {agents : Dict String AgentNode}
  {agentName : String}

/-- A graph that is staged for a file. -/
def StagedFor (env : Env) (files : Path → Option (Option String)) (agents : Dict String AgentNode)
    (f : String × Path × String) (x : Value × Entry) : Prop :=
  files f.2.1 = some (some f.2.2) ∧ ∃ loaded, loadWorkflow env agents f.2.1 f.2.2 = .ok loaded ∧
    x = (registryName loaded f.1, ⟨loaded.graph, some f.2.1⟩)

theorem affected_cons (stem : String) (path : Path) (rest : List (String × Path)) :
    affected files agentName ((stem, path) :: rest) =
      match files path with
      | some (some text) =>
        if contains text agentName then (stem, path, text) :: affected files agentName rest
        else affected files agentName rest
      | _ => affected files agentName rest := by
  unfold affected
  rw [List.filterMap_cons]
  rcases files path with _ | _ | text
  · rfl
  · rfl
  · dsimp only
    by_cases hin : contains text agentName = true
    · rw [if_pos hin, if_pos hin]
    · rw [if_neg hin, if_neg hin]

/-- What is staged, file by file. -/
theorem stage_ok {tracked : List (String × Path)} {staged : List (Value × Entry)}
    (h : stage env files agents agentName tracked = .ok staged) :
    (∀ e ∈ tracked, files e.2 ≠ some none) ∧
      List.Forall₂ (StagedFor env files agents) (affected files agentName tracked) staged := by
  induction tracked generalizing staged with
  | nil =>
    cases h
    exact ⟨fun e he => (by cases he), .nil⟩
  | cons e rest ih =>
    obtain ⟨stem, path⟩ := e
    rw [affected_cons]
    unfold stage at h
    rw [List.forall_mem_cons]
    cases hfile : files path with
    | none =>
      rw [hfile] at h
      obtain ⟨hread, hall⟩ := ih h
      exact ⟨⟨by simp, hread⟩, hall⟩
    | some content =>
      rw [hfile] at h
      cases content with
      | none => cases h
      | some text =>
        dsimp only at h ⊢
        by_cases hin : contains text agentName = true
        · rw [if_pos hin] at h ⊢
          obtain ⟨loaded, hload, h⟩ := (bind_eq_ok_iff _ _ _).mp h
          obtain ⟨more, hmore, h⟩ := (bind_eq_ok_iff _ _ _).mp h
          cases h
          obtain ⟨hread, hall⟩ := ih hmore
          exact ⟨⟨by simp, hread⟩, .cons ⟨hfile, loaded, hload, rfl⟩ hall⟩
        · rw [if_neg hin] at h ⊢
          obtain ⟨hread, hall⟩ := ih h
          exact ⟨⟨by simp, hread⟩, hall⟩

/-- The staging fails at a file that cannot be read or does not compile. -/
theorem stage_error {tracked : List (String × Path)} {e : Raised}
    (h : stage env files agents agentName tracked = .error e) :
    (∃ e ∈ tracked, files e.2 = some none) ∨
      ∃ f ∈ affected files agentName tracked, ∃ e, builtName env agents f = .error e := by
  induction tracked generalizing e with
  | nil => cases h
  | cons entry rest ih =>
    obtain ⟨stem, path⟩ := entry
    rw [affected_cons, List.exists_mem_cons_iff]
    unfold stage at h
    cases hfile : files path with
    | none =>
      rw [hfile] at h
      exact (ih h).imp Or.inr id
    | some content =>
      rw [hfile] at h
      cases content with
      | none => exact Or.inl (Or.inl rfl)
      | some text =>
        dsimp only at h ⊢
        by_cases hin : contains text agentName = true
        · rw [if_pos hin] at h ⊢
          cases hload : loadWorkflow env agents path text with
          | error raised =>
            refine Or.inr ⟨_, List.mem_cons_self, raised, ?_⟩
            unfold builtName
            rw [hload]
            rfl
          | ok loaded =>
            rw [hload] at h
            cases hrest : stage env files agents agentName rest with
            | error raised =>
              refine (ih hrest).imp Or.inr ?_
              rintro ⟨f, hf, hbad⟩
              exact ⟨f, List.mem_cons_of_mem _ hf, hbad⟩
            | ok staged =>
              rw [hrest] at h
              cases h
        · rw [if_neg hin] at h ⊢
          exact (ih h).imp Or.inr id

theorem builtName_of_staged {f : String × Path × String} {x : Value × Entry}
    (h : StagedFor env files agents f x) : builtName env agents f = .ok x.1 := by
  obtain ⟨-, loaded, hload, rfl⟩ := h
  unfold builtName
  rw [hload]
  rfl

/-- A file that cannot be read or does not compile fails the staging. -/
theorem stage_fails {tracked : List (String × Path)}
    (h : (∃ e ∈ tracked, files e.2 = some none) ∨
      ∃ f ∈ affected files agentName tracked, ∃ e, builtName env agents f = .error e) :
    ∃ e, stage env files agents agentName tracked = .error e := by
  cases hstage : stage env files agents agentName tracked with
  | error e => exact ⟨e, rfl⟩
  | ok staged =>
    obtain ⟨hread, hall⟩ := stage_ok hstage
    rcases h with ⟨e, he, hbad⟩ | ⟨f, hf, e, hbad⟩
    · exact absurd hbad (hread e he)
    · obtain ⟨i, hi, rfl⟩ := List.getElem_of_mem hf
      have hok := builtName_of_staged (hall.get hi (hall.length_eq ▸ hi))
      exact absurd (hbad.symm.trans hok) (by simp)

theorem commit_cons (name : Value) (entry : Entry) (rest : List (Value × Entry)) :
    commit ((name, entry) :: rest) =
      if hashable name then ((name, entry) :: (commit rest).1, (commit rest).2)
      else ([], false) := rfl

theorem rebuilt_cons (f : String × Path × String) (fs : List (String × Path × String))
    (name : Value) :
    Rebuilt env agents (f :: fs) name ↔ ∃ n, builtName env agents f = .ok n ∧ hashable n = true ∧
      (n = name ∨ Rebuilt env agents fs name) := by
  constructor
  · rintro ⟨before, g, after, hsplit, hname, hall⟩
    cases before with
    | nil =>
      obtain ⟨rfl, rfl⟩ := List.cons.inj hsplit
      obtain ⟨n, hn, hhash⟩ := hall f List.mem_cons_self
      exact ⟨n, hn, hhash, Or.inl (Except.ok.inj (hn.symm.trans hname))⟩
    | cons b before =>
      obtain ⟨rfl, rfl⟩ := List.cons.inj hsplit
      obtain ⟨n, hn, hhash⟩ := hall f List.mem_cons_self
      exact ⟨n, hn, hhash, Or.inr ⟨before, g, after, rfl, hname,
        fun c hc => hall c (List.mem_cons_of_mem f hc)⟩⟩
  · rintro ⟨n, hn, hhash, rfl | ⟨before, g, after, rfl, hname, hall⟩⟩
    · exact ⟨[], f, fs, rfl, hn, fun b hb => ⟨n, List.mem_singleton.mp hb ▸ hn, hhash⟩⟩
    · refine ⟨f :: before, g, after, rfl, hname, fun b hb => ?_⟩
      rcases List.mem_cons.mp hb with rfl | hb
      · exact ⟨n, hn, hhash⟩
      · exact hall b hb

/-- What is registered of the staged graphs is what the files are built anew for. -/
theorem rebuilt_iff {fs : List (String × Path × String)} {staged : List (Value × Entry)}
    (h : List.Forall₂ (StagedFor env files agents) fs staged) (name : Value) :
    Rebuilt env agents fs name ↔ ∃ entry, (name, entry) ∈ (commit staged).1 := by
  induction h with
  | nil =>
    constructor
    · rintro ⟨before, f, after, hsplit, -⟩
      simp at hsplit
    · rintro ⟨entry, hentry⟩
      cases hentry
  | @cons f x fs staged hhead _ ih =>
    obtain ⟨n, entry⟩ := x
    rw [rebuilt_cons, builtName_of_staged hhead, ih, commit_cons]
    by_cases hhash : hashable n = true
    · rw [if_pos hhash]
      constructor
      · rintro ⟨m, hm, -, rfl | ⟨found, hfound⟩⟩
        · obtain rfl := Except.ok.inj hm
          exact ⟨entry, List.mem_cons_self⟩
        · exact ⟨found, List.mem_cons_of_mem _ hfound⟩
      · rintro ⟨found, hfound⟩
        refine ⟨n, rfl, hhash, ?_⟩
        rcases List.mem_cons.mp hfound with heq | hrest
        · exact Or.inl (Prod.ext_iff.mp heq).1.symm
        · exact Or.inr ⟨found, hrest⟩
    · rw [if_neg hhash]
      constructor
      · rintro ⟨m, hm, hhashm, -⟩
        obtain rfl := Except.ok.inj hm
        exact absurd hhashm hhash
      · rintro ⟨found, hfound⟩
        cases hfound

/-- Everything that is registered was staged. -/
theorem staged_of_commit {staged : List (Value × Entry)} {x : Value × Entry}
    (h : x ∈ (commit staged).1) : x ∈ staged := by
  induction staged with
  | nil => cases h
  | cons y rest ih =>
    obtain ⟨name, entry⟩ := y
    rw [commit_cons] at h
    split at h
    · rcases List.mem_cons.mp h with rfl | hrest
      · exact List.mem_cons_self
      · exact List.mem_cons_of_mem _ (ih hrest)
    · cases h

/-- A staged graph runs the agents of the registry that its file refers to. -/
theorem runsAgent_of_staged {f : String × Path × String} {x : Value × Entry}
    (h : StagedFor env files agents f x) {names : List String} {agent : AgentNode}
    (hnames : ∀ name ∈ names, agents.get? name = some agent) :
    RunsAgent env files names agent x.2 := by
  obtain ⟨hfile, loaded, hload, rfl⟩ := h
  intro path text data hpath htext hdata e he hname
  obtain rfl := Option.some.inj hpath
  obtain rfl := Option.some.inj (Option.some.inj (hfile.symm.trans htext))
  exact loadWorkflow_runs hload hdata he (hnames e.2 hname)

theorem get?_withAgent {path : Path} {agent : AgentNode} {name : String}
    (h : name ∈ [agent.agentName, path.stem]) :
    (withAgent agents path agent).get? name = some agent := by
  unfold withAgent
  dsimp only
  simp only [List.mem_cons, List.not_mem_nil, or_false] at h
  by_cases hstem : path.stem = agent.agentName
  · rw [if_neg (not_not.mpr hstem)]
    rw [hstem, or_self] at h
    rw [h, Dict.get?_set_self]
  · rw [if_pos hstem, Dict.get?_set]
    rcases h with rfl | rfl
    · rw [if_neg hstem, Dict.get?_set_self]
    · rw [if_pos rfl]

end

/-! ## When a reload is all or nothing -/

section

variable {env : Env} {s : Reloader} {path : Path} {agent : AgentNode}

/-- The staging of a reload with this agent. -/
def staging (env : Env) (s : Reloader) (path : Path) (agent : AgentNode) :
    Except Raised (List (Value × Entry)) :=
  stage env s.files (withAgent s.agentRegistry path agent) agent.agentName s.workflowFiles.entries

theorem reload_of_error (hagent : agentOf env s path = .ok agent) {e : Raised}
    (h : staging env s path agent = .error e) :
    reloadAgent env s path =
      ⟨{ s with agentRegistry := withAgent s.agentRegistry path agent }, [], false⟩ := by
  unfold reloadAgent
  rw [hagent]
  unfold staging at h
  dsimp only
  rw [h]

theorem reload_of_ok (hagent : agentOf env s path = .ok agent) {staged : List (Value × Entry)}
    (h : staging env s path agent = .ok staged) :
    reloadAgent env s path =
      ⟨{ s with
          agentRegistry := withAgent s.agentRegistry path agent
          registry := s.registry.setAll (commit staged).1 },
        (commit staged).1, (commit staged).2⟩ := by
  unfold reloadAgent
  rw [hagent]
  unfold staging at h
  dsimp only
  rw [h]

/-- A reload registers a workflow that is built anew, and leaves the others as they are. -/
theorem get?_setAll_cases (registry : Dict Value Entry) (registered : List (Value × Entry))
    (name : Value) :
    (∃ entry, (name, entry) ∈ registered ∧ (registry.setAll registered).get? name = some entry) ∨
      (∀ entry, (name, entry) ∉ registered) ∧
        (registry.setAll registered).get? name = registry.get? name := by
  rw [Dict.get?_setAll_reverse]
  cases hlookup : registered.reverse.lookup name with
  | some entry =>
    obtain ⟨before, after, rfl, -⟩ := (Dict.lookup_reverse_iff registered name entry).mp hlookup
    exact Or.inl ⟨entry, List.mem_append_right _ List.mem_cons_self, rfl⟩
  | none =>
    refine Or.inr ⟨fun entry hentry => ?_, rfl⟩
    have hne := List.lookup_eq_none_iff.mp hlookup _ (List.mem_reverse.mpr hentry)
    simp at hne

/-- Where nothing is registered of what was staged, the first name has no hash. -/
theorem covered_of_nothing {staged : List (Value × Entry)}
    (hall : List.Forall₂ (StagedFor env s.files (withAgent s.agentRegistry path agent))
      (affected s.files agent.agentName s.workflowFiles.entries) staged)
    (hdone : (commit staged).2 = false) (hnone : (commit staged).1 = []) :
    Covered env s path agent := by
  generalize hfs : affected s.files agent.agentName s.workflowFiles.entries = fs at hall
  cases hall with
  | nil => cases hdone
  | @cons f x _ _ hhead _ =>
    obtain ⟨name, entry⟩ := x
    rw [commit_cons] at hnone
    by_cases hhash : hashable name = true
    · rw [if_pos hhash] at hnone
      cases hnone
    · exact .unhashable hfs (builtName_of_staged hhead) (by simpa using hhash)

/-- A reload is all or nothing exactly where its agent covers the registered workflows. -/
theorem all_or_nothing_iff (env : Env) (s : Reloader) (path : Path) :
    AllOrNothing env s path ↔
      ∀ agent, agentOf env s path = .ok agent → Covered env s path agent := by
  unfold AllOrNothing
  dsimp only
  cases hagent : agentOf env s path with
  | error e =>
    have hreload : reloadAgent env s path = ⟨s, [], false⟩ := by
      unfold reloadAgent
      rw [hagent]
    simp [hreload]
  | ok agent =>
    have hone : ∀ P : AgentNode → Prop,
        (∀ a, (Except.ok agent : Except Raised AgentNode) = .ok a → P a) ↔ P agent := by
      intro P
      simp
    rw [hone, hone]
    cases hstage : staging env s path agent with
    | error e =>
      rw [reload_of_error hagent hstage]
      refine iff_of_true (Or.inl ⟨rfl, rfl, rfl⟩) ?_
      rcases stage_error hstage with ⟨e, he, hbad⟩ | ⟨f, hf, e, hbad⟩
      · exact .unreadable he hbad
      · exact .refused hf hbad
    | ok staged =>
      rw [reload_of_ok hagent hstage]
      obtain ⟨hread, hall⟩ := stage_ok hstage
      constructor
      · rintro (⟨hdone, hnone, -⟩ | hruns)
        · exact covered_of_nothing hall hdone hnone
        · refine .reached fun name entry hentry => ?_
          rcases get?_setAll_cases s.registry (commit staged).1 name with
            ⟨found, hfound, -⟩ | ⟨-, hkept⟩
          · exact Or.inl ((rebuilt_iff hall name).mpr ⟨found, hfound⟩)
          · exact Or.inr (hruns name entry (hkept.trans hentry))
      · intro hcovered
        cases hcovered with
        | unreadable he hbad => exact absurd hbad (hread _ he)
        | refused hf hbad =>
          obtain ⟨e, herror⟩ := stage_fails (Or.inr ⟨_, hf, _, hbad⟩)
          exact absurd (herror.symm.trans hstage) (by simp)
        | unhashable hfirst hname hbad =>
          rw [hfirst] at hall
          cases hall with
          | cons hhead _ =>
            have hn := Except.ok.inj ((builtName_of_staged hhead).symm.trans hname)
            refine Or.inl ?_
            rw [← hn] at hbad
            simp [commit, hbad, Dict.setAll]
        | reached h =>
          refine Or.inr fun name entry hentry => ?_
          rcases get?_setAll_cases s.registry (commit staged).1 name with
            ⟨found, hfound, hget⟩ | ⟨hnone, hkept⟩
          · obtain rfl := Option.some.inj (hget.symm.trans hentry)
            obtain ⟨i, hi, hx⟩ := List.getElem_of_mem (staged_of_commit hfound)
            have hstaged := hall.get (hall.length_eq ▸ hi) hi
            have hruns := runsAgent_of_staged hstaged fun _ => get?_withAgent
            change RunsAgent env s.files _ agent staged[i].2 at hruns
            rw [hx] at hruns
            exact hruns
          · rcases h name entry (hkept.symm.trans hentry) with hrebuilt | hruns
            · obtain ⟨found, hfound⟩ := (rebuilt_iff hall name).mp hrebuilt
              exact absurd hfound (hnone found)
            · exact hruns

end

/-! ## A renamed agent -/

def plainAgent (name : String) : AgentNode :=
  agent.BaseAgent.node
    { name, model := none, systemPrompt := "", tools := [], acl := none, maxIterations := 10,
      structured := none } none

def writerPath : Path := ⟨"agents", "writer.yaml"⟩

def pipelinePath : Path := ⟨"workflows", "pipeline.yaml"⟩

def pipelineText : String :=
  "name: pipeline\nnodes:\n  writer:\n    output_key: out\nentry_point: writer\n"

def pipelineData : Value :=
  .dict [("name", .str "pipeline"),
    ("nodes", .dict [("writer", .dict [("output_key", .str "out")])]),
    ("entry_point", .str "writer")]

def demoEnv : Env where
  parse text :=
    if text = pipelineText then .ok pipelineData
    else if text = "name: editor\n" then .ok (.dict [("name", .str "editor")])
    else .error "not read here"
  importRef _ := .error ⟨"ImportError", "", false⟩
  allowedPrefixes := ["orchestra.core.", "orchestra.tools.", "orchestra.providers."]
  buildState _ := .error ⟨"TypeError", "", false⟩
  makeAgent fields :=
    match fields.name with
    | .str name => .ok (plainAgent name)
    | _ => .error ⟨"ValidationError", "", false⟩
  toolRegistry := .empty
  defaults := none

/-- The workflow as it was compiled while the file of the agent had the name `writer`. -/
def pipelineGraph : CompiledGraph where
  nodes := .ofList [("writer", withOutputKey (some "out") (.agent (plainAgent "writer")))]
  edges := []
  entryPoint := "writer"
  schema := none
  maxTurns := 50
  name := "pipeline"
  handoffEdges := []

/-- The file of the writer has got the name `editor`. -/
def renamed : Reloader where
  registry := .ofList [(.str "pipeline", ⟨pipelineGraph, some pipelinePath⟩)]
  agentRegistry := .ofList [("writer", plainAgent "writer")]
  workflowFiles := .ofList [("pipeline", pipelinePath)]
  files path :=
    if path = writerPath then some (some "name: editor\n")
    else if path = pipelinePath then some (some pipelineText)
    else none

/-- The graph is what the workflow was compiled to before. -/
example : loadWorkflow demoEnv renamed.agentRegistry pipelinePath pipelineText =
    .ok ⟨.str "pipeline", pipelineGraph⟩ := rfl

/-- A workflow that refers to the agent by the stem of its file keeps the old one. -/
theorem a_renamed_agent_is_missed :
    agentOf demoEnv renamed writerPath = .ok (plainAgent "editor") ∧
      (reloadAgent demoEnv renamed writerPath).completed = true ∧
      (reloadAgent demoEnv renamed writerPath).registered = [] ∧
      ¬ AllOrNothing demoEnv renamed writerPath := by
  have hagent : agentOf demoEnv renamed writerPath = .ok (plainAgent "editor") := rfl
  have hstage : staging demoEnv renamed writerPath (plainAgent "editor") = .ok [] := rfl
  have hreload := reload_of_ok hagent hstage
  refine ⟨hagent, by rw [hreload]; rfl, by rw [hreload]; rfl, ?_⟩
  rintro (⟨hcompleted, -⟩ | hruns)
  · rw [hreload] at hcompleted
    cases hcompleted
  · rw [hreload] at hruns
    obtain ⟨n, hnode, hname, -⟩ := hruns (plainAgent "editor") hagent (.str "pipeline")
      ⟨pipelineGraph, some pipelinePath⟩ rfl pipelinePath pipelineText pipelineData rfl rfl rfl
      ("writer", "writer") (by decide) (by decide)
    cases hnode
    exact absurd hname (by decide)

end orchestra.hot_reload
