-- The methods of the builder as it changes step by step (`graph.py`): each of them may fail on its
-- way, and what it has stored until then stays in the graph.
import Orchestra.Fluent
import Orchestra.Lib.Stateful

open dicts stateful orchestra.state orchestra.edges orchestra.nodes orchestra.compiled
open orchestra.graph

namespace orchestra.builder

/-! ## What a method is given -/

/-- What a method raises. -/
inductive Failure
  | build (e : BuildError)
  | cannotWrap (text typeName : String)
  | branchAlone
  | compile (e : CompileError)
  | raised (e : Raised)

/-- `isinstance(exc, GraphCompileError)` -/
def Failure.isGraphCompileError : Failure → Bool
  | build _ | cannotWrap .. | branchAlone | compile _ => true
  | raised e => e.type = "GraphCompileError"

/-- `str(exc)` -/
def Failure.message : Failure → String
  | build e => e.message
  | cannotWrap text typeName =>
    "Cannot wrap '" ++ text ++ "' as a graph node.\n" ++
      "  Expected: Agent, async function, or GraphNode instance.\n" ++ "  Got: " ++ typeName
  | branchAlone =>
    "Cannot branch without a preceding node.\n  Fix: Call .then() before .branch()."
  | compile e => e.message
  | raised e => e.message

/-- How `_wrap_as_node` sees an object: a node, an object with `system_prompt` and `run`, another
callable object, or anything else. -/
inductive Kind
  | node (node : GraphNode)
  | agent (agentName : String) (run : Value → Ctx → AgentRun)
  | callable (func : PyDict → Moment → Except Raised PyDict)
  | other (text typeName : String)

/-- An object in the place of a node. Its `name` may be a text or a method that gives one. -/
structure Item where
  kind : Kind
  name : Option (Except Raised String)
  dunderName : Option String
  address : Nat

namespace Item

/-- `_get_node_name` -/
def nodeName (item : Item) : Except Failure String :=
  match item.name with
  | some (.ok name) => .ok name
  | some (.error e) => .error (.raised e)
  | none => .ok (item.dunderName.getD (toString item.address))

/-- `_wrap_as_node`. A function node without a name takes the one of its function. -/
def wrapAsNode (item : Item) (nodeId : String) (interruptBefore interruptAfter : Bool) :
    Except Failure GraphNode :=
  match item.kind with
  | .node node => .ok (graph.wrapAsNode interruptBefore interruptAfter node)
  | .agent agentName run =>
    .ok (.agent ⟨agentName, run, none, false, none, none, interruptBefore, interruptAfter⟩)
  | .callable func =>
    if nodeId ≠ "" then .ok (.function ⟨func, nodeId, interruptBefore, interruptAfter⟩)
    else
      match item.dunderName with
      | some name => .ok (.function ⟨func, name, interruptBefore, interruptAfter⟩)
      | none => .error (.raised ⟨"AttributeError", "no attribute '__name__'", false⟩)
  | .other text typeName => .error (.cannotWrap text typeName)

end Item

/-- `graph_or_factory`, after a factory is called: a graph without a method `compile`, another
builder with the outcome of its `compile`, or the builder itself. -/
inductive Nested
  | compiled (run : PyDict → Moment → Except Raised PyDict)
  | other (compile : Except CompileError (PyDict → Moment → Except Raised PyDict))
  | itself

/-- A target of a path map. -/
inductive PathTarget
  | END
  | id (nodeId : String)
  | item (item : Item)

/-! ## The methods -/

/-- A method on the graph under construction. -/
abbrev Build := EStateM Failure WorkflowGraph

/-- What does not touch the graph. -/
def lift {α : Type} : Except Failure α → Build α
  | .ok a => pure a
  | .error e => throw e

/-- `name or _get_node_name(item)` -/
def nameOr (name : Option String) (item : Item) : Except Failure String :=
  if name.getD "" ≠ "" then .ok (name.getD "") else item.nodeName

/-- `add_node` -/
def addNode (nodeId : String) (item : Item) (outputKey : Option String)
    (interruptBefore interruptAfter : Bool) : Build Unit := do
  let g ← get
  if nodeId = START then throw (.build (.reserved nodeId))
  else if nodeId ∈ g.nodes.keys then throw (.build (.alreadyExists nodeId))
  else do
    let wrapped ← lift (item.wrapAsNode nodeId interruptBefore interruptAfter)
    set (g.withNode nodeId (withOutputKey outputKey wrapped))

/-- The edge from the last node to this one, which is the last one from now on. -/
def follow (nodeId : String) (g : WorkflowGraph) : WorkflowGraph :=
  let g := match g.lastNode with
    | some last => g.addEdge last (.node nodeId)
    | none => g
  { g with lastNode := some nodeId }

/-- `then` -/
def thenNode (item : Item) (name : Option String) (interruptBefore interruptAfter : Bool) :
    Build Unit := do
  let nodeId ← lift (nameOr name item)
  addNode nodeId item none interruptBefore interruptAfter
  modify (follow nodeId)

/-- The compiled graph of `subgraph`. `compile` closes the builder itself, too. A compiled graph
runs by `runs`. -/
def nest (runs : CompiledGraph → PyDict → Moment → Except Raised PyDict) :
    Nested → Build (PyDict → Moment → Except Raised PyDict)
  | .compiled run => pure run
  | .other compile => lift (compile.mapError .compile)
  | .itself => do
    let g ← get
    let G ← lift ((g.compile 50).mapError .compile)
    set { g with edges := g.edges ++ g.closingEdge }
    pure (runs G)

/-- A subgraph node as the object that is handed to `add_node`. -/
def nestedItem (run : PyDict → Moment → Except Raised PyDict)
    (inputMapper outputMapper : Option (PyDict → Except Raised PyDict))
    (interruptBefore interruptAfter : Bool) : Item where
  kind := .node (.subgraph ⟨run, inputMapper, outputMapper, interruptBefore, interruptAfter⟩)
  name := none
  dunderName := none
  address := 0

def subgraph (runs : CompiledGraph → PyDict → Moment → Except Raised PyDict) (name : String)
    (nested : Except Failure Nested)
    (inputMapper outputMapper : Option (PyDict → Except Raised PyDict))
    (interruptBefore interruptAfter : Bool) : Build Unit := do
  let nested ← lift nested
  let run ← nest runs nested
  let node := nestedItem run inputMapper outputMapper interruptBefore interruptAfter
  addNode name node none false false
  modify (follow name)

/-- `names[i] if names and i < len(names) else _get_node_name(item)` -/
def itemName (names : Option (List String)) (i : Nat) (item : Item) : Except Failure String :=
  match (names.getD [])[i]? with
  | some name => .ok name
  | none => item.nodeName

/-- A name that is taken gets the index as a suffix. -/
def freeName (taken : List String) (i : Nat) (name : String) : String :=
  if name ∈ taken then name ++ "_" ++ toString i else name

/-- The loop of `parallel`, from the index `i` on. -/
def addItems (names : Option (List String)) : Nat → List Item → Build (List String)
  | _, [] => pure []
  | i, item :: rest => do
    let name ← lift (itemName names i item)
    let g ← get
    let nodeId := freeName g.nodes.keys i name
    addNode nodeId item none false false
    let later ← addItems names (i + 1) rest
    pure (nodeId :: later)

def parallel (items : List Item) (names : Option (List String)) : Build Unit := do
  let nodeNames ← addItems names 0 items
  let g ← get
  match g.parallelNodes with
  | some _ => throw (.build .parallelAgain)
  | none =>
    let edges := match g.lastNode with
      | some last => g.edges ++ [.parallel ⟨last, nodeNames.map .node, none⟩]
      | none => g.edges
    set { g with edges, parallelNodes := some nodeNames, lastNode := none }

def join (item : Item) (name : Option String) : Build Unit := do
  let g ← get
  match g.parallelNodes with
  | none => throw (.build .joinAlone)
  | some names => do
    let nodeId ← lift (nameOr name item)
    addNode nodeId item none false false
    modify fun g => { g with
      edges := WorkflowGraph.joinEdges (names.map .node) (.node nodeId) g.edges
      parallelNodes := none
      lastNode := some nodeId }

/-- `add_node`, where the id is not taken. -/
def addUnlessTaken (nodeId : String) (item : Item) : Build Unit := do
  let g ← get
  if nodeId ∈ g.nodes.keys then pure () else addNode nodeId item none false false

/-- The node of a target of `branch` or `if_then`. -/
def addTarget (item : Item) : Build String := do
  let nodeId ← lift item.nodeName
  addUnlessTaken nodeId item
  pure nodeId

/-- The loop of `branch`. -/
def resolveTargets : List (String × PathTarget) → Build (List (String × Target))
  | [] => pure []
  | (key, .END) :: rest => do
    let later ← resolveTargets rest
    pure ((key, .END) :: later)
  | (key, .id nodeId) :: rest => do
    let later ← resolveTargets rest
    pure ((key, .node nodeId) :: later)
  | (key, .item item) :: rest => do
    let nodeId ← addTarget item
    let later ← resolveTargets rest
    pure ((key, .node nodeId) :: later)

/-- The conditional edge at the end of `branch` and `if_then`. -/
def fork (condition : PyDict → Counters → Except Raised (Routed × Counters))
    (paths : List (String × Target)) (g : WorkflowGraph) : WorkflowGraph :=
  let g := match g.lastNode with
    | some last => g.addConditionalEdge last condition (some (.ofList paths))
    | none => g
  { g with lastNode := none }

def branch (condition : PyDict → Counters → Except Raised (Routed × Counters))
    (pathMap : Dict String PathTarget) : Build Unit := do
  let g ← get
  match g.lastNode with
  | none => throw .branchAlone
  | some _ => do
    let paths ← resolveTargets pathMap.entries
    modify (fork condition paths)

/-- `_condition_wrapper` -/
def conditionWrapper (condition : PyDict → Except Raised Bool) (state : PyDict)
    (counters : Counters) : Except Raised (Routed × Counters) :=
  match condition state with
  | .error e => .error e
  | .ok true => .ok (.str "__then__", counters)
  | .ok false => .ok (.str "__else__", counters)

def ifThen (condition : PyDict → Except Raised Bool) (thenAgent : Item)
    (elseAgent : Option Item) : Build Unit := do
  let thenId ← addTarget thenAgent
  match elseAgent with
  | some elseAgent => do
    let elseId ← addTarget elseAgent
    modify (fork (conditionWrapper condition)
      [("__then__", .node thenId), ("__else__", .node elseId)])
  | none =>
    modify (fork (conditionWrapper condition) [("__then__", .node thenId), ("__else__", .END)])

/-- The edges of `loop`. -/
def loopBack (nodeId : String) (condition : PyDict → Except Raised Bool) (maxIterations : Int)
    (g : WorkflowGraph) : WorkflowGraph :=
  let g := match g.lastNode with
    | some last => if last ≠ nodeId then g.addEdge last (.node nodeId) else g
    | none => g
  { g.addConditionalEdge nodeId
      (WorkflowGraph.loopCondition nodeId condition maxIterations) none with
    lastNode := some nodeId }

def loop (item : Item) (condition : PyDict → Except Raised Bool) (maxIterations : Int)
    (name : Option String) : Build Unit := do
  let nodeId ← lift (nameOr name item)
  addUnlessTaken nodeId item
  modify (loopBack nodeId condition maxIterations)

/-- A call of a method that stores nodes. -/
inductive Call
  | addNode (nodeId : String) (item : Item) (outputKey : Option String)
      (interruptBefore interruptAfter : Bool)
  | thenNode (item : Item) (name : Option String) (interruptBefore interruptAfter : Bool)
  | subgraph (runs : CompiledGraph → PyDict → Moment → Except Raised PyDict) (name : String)
      (nested : Except Failure Nested)
      (inputMapper outputMapper : Option (PyDict → Except Raised PyDict))
      (interruptBefore interruptAfter : Bool)
  | parallel (items : List Item) (names : Option (List String))
  | join (item : Item) (name : Option String)
  | branch (condition : PyDict → Counters → Except Raised (Routed × Counters))
      (pathMap : Dict String PathTarget)
  | ifThen (condition : PyDict → Except Raised Bool) (thenAgent : Item) (elseAgent : Option Item)
  | loop (item : Item) (condition : PyDict → Except Raised Bool) (maxIterations : Int)
      (name : Option String)

def Call.run : Call → Build Unit
  | addNode nodeId item outputKey interruptBefore interruptAfter =>
    builder.addNode nodeId item outputKey interruptBefore interruptAfter
  | thenNode item name interruptBefore interruptAfter =>
    builder.thenNode item name interruptBefore interruptAfter
  | subgraph runs name nested inputMapper outputMapper interruptBefore interruptAfter =>
    builder.subgraph runs name nested inputMapper outputMapper interruptBefore interruptAfter
  | parallel items names => builder.parallel items names
  | join item name => builder.join item name
  | branch condition pathMap => builder.branch condition pathMap
  | ifThen condition thenAgent elseAgent => builder.ifThen condition thenAgent elseAgent
  | loop item condition maxIterations name => builder.loop item condition maxIterations name

/-! ## The nodes that a call asks for -/

/-- An object that is to be stored under an id, and what is asked for it. -/
structure Request where
  nodeId : String
  item : Item
  outputKey : Option String
  before : Bool
  after : Bool

/-- The node that `add_node` makes. -/
def Request.node (r : Request) : Except Failure GraphNode :=
  (r.item.wrapAsNode r.nodeId r.before r.after).map (withOutputKey r.outputKey)

def requestFor (item : Item) : Except Failure String → List Request
  | .ok nodeId => [⟨nodeId, item, none, false, false⟩]
  | .error _ => []

/-- The requests of `parallel`, where these names are taken. -/
def itemRequests (names : Option (List String)) : List String → Nat → List Item → List Request
  | _, _, [] => []
  | taken, i, item :: rest =>
    match itemName names i item with
    | .error _ => []
    | .ok name =>
      let nodeId := freeName taken i name
      ⟨nodeId, item, none, false, false⟩ :: itemRequests names (taken ++ [nodeId]) (i + 1) rest

/-- The requests for the items whose names are not taken. -/
def newRequests : List String → List Item → List Request
  | _, [] => []
  | taken, item :: rest =>
    match item.nodeName with
    | .error _ => []
    | .ok nodeId =>
      if nodeId ∈ taken then newRequests taken rest
      else ⟨nodeId, item, none, false, false⟩ :: newRequests (taken ++ [nodeId]) rest

/-- The objects among the targets of a path map. -/
def itemsOf (targets : List (String × PathTarget)) : List Item :=
  targets.filterMap fun
    | (_, .item item) => some item
    | _ => none

/-- The run of the nested graph, where it compiles. -/
def nestedRun (runs : CompiledGraph → PyDict → Moment → Except Raised PyDict)
    (g : WorkflowGraph) : Nested → Option (PyDict → Moment → Except Raised PyDict)
  | .compiled run => some run
  | .other (.ok run) => some run
  | .other (.error _) => none
  | .itself =>
    match g.compile 50 with
    | .ok G => some (runs G)
    | .error _ => none

namespace Call

/-- What a call asks for, as long as nothing fails. -/
def requests (g : WorkflowGraph) : Call → List Request
  | addNode nodeId item outputKey interruptBefore interruptAfter =>
    [⟨nodeId, item, outputKey, interruptBefore, interruptAfter⟩]
  | thenNode item name interruptBefore interruptAfter =>
    (requestFor item (nameOr name item)).map fun r =>
      { r with before := interruptBefore, after := interruptAfter }
  | subgraph runs name nested inputMapper outputMapper interruptBefore interruptAfter =>
    match nested with
    | .error _ => []
    | .ok nested =>
      (nestedRun runs g nested).toList.map fun run =>
        ⟨name, nestedItem run inputMapper outputMapper false false, none,
          interruptBefore, interruptAfter⟩
  | parallel items names => itemRequests names g.nodes.keys 0 items
  | join item name =>
    match g.parallelNodes with
    | none => []
    | some _ => requestFor item (nameOr name item)
  | branch _ pathMap =>
    match g.lastNode with
    | none => []
    | some _ => newRequests g.nodes.keys (itemsOf pathMap.entries)
  | ifThen _ thenAgent elseAgent => newRequests g.nodes.keys (thenAgent :: elseAgent.toList)
  | loop item _ _ name =>
    (requestFor item (nameOr name item)).filter fun r => r.nodeId ∉ g.nodes.keys

/-- The graph before the nodes: a builder that is nested in itself is closed by its `compile`. -/
def prepared (g : WorkflowGraph) : Call → WorkflowGraph
  | subgraph _ _ (.ok .itself) .. =>
    match g.compile 50 with
    | .ok _ => { g with edges := g.edges ++ g.closingEdge }
    | .error _ => g
  | _ => g

end Call

/-! ## What a call stores -/

/-- The graph `h` is `g` with the nodes of these requests. -/
inductive Stored : WorkflowGraph → List Request → WorkflowGraph → Prop
  | nil {g : WorkflowGraph} : Stored g [] g
  | cons {g h : WorkflowGraph} {r : Request} {rs : List Request} {node : GraphNode}
      (notStart : r.nodeId ≠ START) (fresh : r.nodeId ∉ g.nodes.keys) (made : r.node = .ok node)
      (rest : Stored (g.withNode r.nodeId node) rs h) : Stored g (r :: rs) h

/-- `add_node` fails. -/
def Request.Refused (g : WorkflowGraph) (r : Request) : Prop :=
  r.nodeId = START ∨ r.nodeId ∈ g.nodes.keys ∨ ∃ e, r.node = .error e

/-- Some of the requests are stored, and the next one is not. -/
def Stuck (g : WorkflowGraph) (rs : List Request) (h : WorkflowGraph) : Prop :=
  ∃ done, done <+: rs ∧ Stored g done h ∧ (done = [] → ∀ r ∈ rs.head?, r.Refused g)

section stored

variable {g g' h : WorkflowGraph} {r : Request} {rs : List Request}

theorem keys_withNode {nodeId : String} (node : GraphNode) (h : nodeId ∉ g.nodes.keys) :
    (g.withNode nodeId node).nodes.keys = g.nodes.keys ++ [nodeId] :=
  Dict.keys_set_of_not_mem h node

/-- Nothing but the nodes and the entry point changes. -/
theorem Stored.frame (hs : Stored g rs h) : h.edges = g.edges ∧ h.lastNode = g.lastNode ∧
    h.parallelNodes = g.parallelNodes := by
  induction hs with
  | nil => exact ⟨rfl, rfl, rfl⟩
  | cons _ _ _ _ ih => exact ih

theorem Stored.keys (hs : Stored g rs h) :
    h.nodes.keys = g.nodes.keys ++ rs.map Request.nodeId := by
  induction hs with
  | nil => simp
  | cons _ fresh _ _ ih =>
    rw [ih, keys_withNode _ fresh, List.map_cons, List.append_assoc]
    rfl

/-- A node that is there stays as it is. -/
theorem Stored.kept (hs : Stored g rs h) {nodeId : String} (hmem : nodeId ∈ g.nodes.keys) :
    h.nodes.get? nodeId = g.nodes.get? nodeId := by
  induction hs with
  | nil => rfl
  | @cons g _ r _ node _ fresh _ _ ih =>
    have hne : r.nodeId ≠ nodeId := fun he => fresh (he ▸ hmem)
    have hlater : nodeId ∈ (g.withNode r.nodeId node).nodes.keys := by
      rw [keys_withNode node fresh]
      exact List.mem_append_left _ hmem
    rw [ih hlater]
    exact Dict.get?_set_ne _ node hne

/-- Each request has its node. -/
theorem Stored.made (hs : Stored g rs h) (hmem : r ∈ rs) :
    ∃ node, r.node = .ok node ∧ h.nodes.get? r.nodeId = some node := by
  induction hs with
  | nil => cases hmem
  | @cons g _ r' _ node _ fresh made rest ih =>
    rcases List.mem_cons.mp hmem with rfl | hmem
    · refine ⟨node, made, ?_⟩
      have hlater : r.nodeId ∈ (g.withNode r.nodeId node).nodes.keys := by
        rw [keys_withNode node fresh]
        exact List.mem_append_right _ (List.mem_singleton.mpr rfl)
      rw [rest.kept hlater]
      exact Dict.get?_set_self _ _ _
    · exact ih hmem

/-- A request that is stored first is not refused. -/
theorem Stored.not_refused (hs : Stored g (r :: rs) h) : ¬ r.Refused g := by
  cases hs with
  | cons notStart fresh made =>
    rintro (hstart | hmem | ⟨e, he⟩)
    · exact notStart hstart
    · exact fresh hmem
    · rw [made] at he
      cases he

/-- One request is stored, and then others. -/
theorem Stored.then {g₁ : WorkflowGraph} (hr : Stored g [r] g₁) (hs : Stored g₁ rs h) :
    Stored g (r :: rs) h := by
  cases hr with
  | cons notStart fresh made rest =>
    cases rest
    exact .cons notStart fresh made hs

theorem Stuck.refl (hr : ∀ r ∈ rs.head?, r.Refused g) : Stuck g rs g :=
  ⟨[], List.nil_prefix, .nil, fun _ => hr⟩

theorem Stuck.nothing : Stuck g [] g := .refl (by simp)

theorem Stuck.all (hs : Stored g rs h) : Stuck g rs h := by
  refine ⟨rs, List.prefix_rfl, hs, ?_⟩
  rintro rfl r hr
  cases hr

/-- Two requests for the same node. -/
theorem Stored.same {r' : Request} (hs : Stored g [r] h) (hid : r.nodeId = r'.nodeId)
    (hnode : r.node = r'.node) : Stored g [r'] h := by
  cases hs with
  | cons notStart fresh made rest =>
    rw [hid] at notStart fresh rest
    exact .cons notStart fresh (hnode ▸ made) rest

theorem Request.Refused.same {r' : Request} (hr : r.Refused g) (hid : r.nodeId = r'.nodeId)
    (hnode : r.node = r'.node) : r'.Refused g := by
  unfold Request.Refused at hr ⊢
  rwa [← hid, ← hnode]

theorem Stuck.then {g₁ : WorkflowGraph} (hr : Stored g [r] g₁) (hs : Stuck g₁ rs h) :
    Stuck g (r :: rs) h := by
  obtain ⟨done, hprefix, hdone, -⟩ := hs
  exact ⟨r :: done, List.cons_prefix_cons.mpr ⟨rfl, hprefix⟩, hr.then hdone, nofun⟩

end stored

/-! ## Each method stores what it asks for -/

section methods

variable {g : WorkflowGraph}

theorem leads_lift {α : Type} {x : Except Failure α} {Q : α → WorkflowGraph → Prop}
    {E : Failure → WorkflowGraph → Prop} :
    Leads (lift x) Q E g ↔ (∀ a, x = .ok a → Q a g) ∧ ∀ e, x = .error e → E e g := by
  cases x with
  | error e => simp [lift]
  | ok a => simp [lift]

theorem leads_addNode (nodeId : String) (item : Item) (outputKey : Option String)
    (before after : Bool) :
    Leads (addNode nodeId item outputKey before after)
      (fun _ h => Stored g [⟨nodeId, item, outputKey, before, after⟩] h)
      (fun _ h => h = g ∧ Request.Refused g ⟨nodeId, item, outputKey, before, after⟩) g := by
  unfold addNode
  rw [leads_bind, leads_get]
  by_cases hstart : nodeId = START
  · rw [if_pos hstart, leads_throw]
    exact ⟨rfl, .inl hstart⟩
  rw [if_neg hstart]
  by_cases hmem : nodeId ∈ g.nodes.keys
  · rw [if_pos hmem, leads_throw]
    exact ⟨rfl, .inr (.inl hmem)⟩
  rw [if_neg hmem, leads_bind, leads_lift]
  constructor
  · intro wrapped hwrapped
    rw [leads_set]
    exact .cons hstart hmem (by simp [Request.node, hwrapped, Except.map]) .nil
  · intro e he
    exact ⟨rfl, .inr (.inr ⟨e, by simp [Request.node, he, Except.map]⟩)⟩

/-- One request, and then nothing but edges. -/
theorem leads_addNode_stuck (nodeId : String) (item : Item) (outputKey : Option String)
    (before after : Bool) :
    Leads (addNode nodeId item outputKey before after)
      (fun _ h => Stored g [⟨nodeId, item, outputKey, before, after⟩] h)
      (fun _ h => Stuck g [⟨nodeId, item, outputKey, before, after⟩] h) g := by
  refine (leads_addNode nodeId item outputKey before after).mono (fun _ _ h => h) ?_
  rintro _ _ ⟨rfl, hrefused⟩
  refine .refl fun r hr => ?_
  cases hr
  exact hrefused

theorem itemRequests_cons (names : Option (List String)) (taken : List String) (i : Nat)
    (item : Item) (rest : List Item) :
    itemRequests names taken i (item :: rest) =
      match itemName names i item with
      | .error _ => []
      | .ok name => ⟨freeName taken i name, item, none, false, false⟩ ::
          itemRequests names (taken ++ [freeName taken i name]) (i + 1) rest := rfl

theorem newRequests_cons (taken : List String) (item : Item) (rest : List Item) :
    newRequests taken (item :: rest) =
      match item.nodeName with
      | .error _ => []
      | .ok nodeId =>
        if nodeId ∈ taken then newRequests taken rest
        else ⟨nodeId, item, none, false, false⟩ :: newRequests (taken ++ [nodeId]) rest := rfl

theorem leads_addItems (names : Option (List String)) (i : Nat) (items : List Item) :
    Leads (addItems names i items)
      (fun _ h => Stored g (itemRequests names g.nodes.keys i items) h)
      (fun _ h => Stuck g (itemRequests names g.nodes.keys i items) h) g := by
  induction items generalizing i g with
  | nil => exact .nil
  | cons item rest ih =>
    unfold addItems
    rw [itemRequests_cons, leads_bind, leads_lift]
    refine ⟨fun name hname => ?_, fun e he => ?_⟩
    · rw [leads_bind, leads_get, leads_bind, hname]
      refine (leads_addNode _ item none false false).mono ?_ ?_
      · intro _ g₁ hstored
        have hkeys := hstored.keys
        rw [leads_bind]
        refine (ih (g := g₁) (i + 1)).mono ?_ ?_
        · intro _ h hrest
          rw [hkeys] at hrest
          exact hstored.then hrest
        · intro _ h hstuck
          rw [hkeys] at hstuck
          exact hstuck.then hstored
      · rintro _ _ ⟨rfl, hrefused⟩
        refine .refl fun r hr => ?_
        cases hr
        exact hrefused
    · rw [he]
      exact .nothing

theorem leads_addUnlessTaken (nodeId : String) (item : Item) :
    Leads (addUnlessTaken nodeId item)
      (fun _ h => if nodeId ∈ g.nodes.keys then h = g
        else Stored g [⟨nodeId, item, none, false, false⟩] h)
      (fun _ h => h = g ∧ nodeId ∉ g.nodes.keys ∧
        Request.Refused g ⟨nodeId, item, none, false, false⟩) g := by
  unfold addUnlessTaken
  rw [leads_bind, leads_get]
  by_cases hmem : nodeId ∈ g.nodes.keys
  · rw [if_pos hmem, leads_pure, if_pos hmem]
  · rw [if_neg hmem]
    refine (leads_addNode nodeId item none false false).mono (fun _ h hstored => ?_) ?_
    · rw [if_neg hmem]
      exact hstored
    · rintro _ _ ⟨hsame, hrefused⟩
      exact ⟨hsame, hmem, hrefused⟩

/-- A target, before the other ones. -/
theorem leads_addTarget (item : Item) (rest : List Item) :
    Leads (addTarget item)
      (fun _ g₁ => ∀ h,
        (Stored g₁ (newRequests g₁.nodes.keys rest) h →
          Stored g (newRequests g.nodes.keys (item :: rest)) h) ∧
        (Stuck g₁ (newRequests g₁.nodes.keys rest) h →
          Stuck g (newRequests g.nodes.keys (item :: rest)) h))
      (fun _ h => Stuck g (newRequests g.nodes.keys (item :: rest)) h) g := by
  unfold addTarget
  rw [newRequests_cons, leads_bind, leads_lift]
  refine ⟨fun nodeId hname => ?_, fun e he => ?_⟩
  · rw [leads_bind, hname]
    dsimp only
    refine (leads_addUnlessTaken nodeId item).mono ?_ ?_
    · intro _ g₁ hstep
      rw [leads_pure]
      by_cases hmem : nodeId ∈ g.nodes.keys
      · rw [if_pos hmem] at hstep ⊢
        subst hstep
        exact fun h => ⟨id, id⟩
      · rw [if_neg hmem] at hstep ⊢
        have hkeys := hstep.keys
        intro h
        rw [hkeys]
        exact ⟨hstep.then, fun hstuck => hstuck.then hstep⟩
    · rintro _ _ ⟨rfl, hmem, hrefused⟩
      rw [if_neg hmem]
      refine .refl fun r hr => ?_
      cases hr
      exact hrefused
  · rw [he]
    exact .nothing

theorem leads_resolveTargets (targets : List (String × PathTarget)) :
    Leads (resolveTargets targets)
      (fun _ h => Stored g (newRequests g.nodes.keys (itemsOf targets)) h)
      (fun _ h => Stuck g (newRequests g.nodes.keys (itemsOf targets)) h) g := by
  induction targets generalizing g with
  | nil => exact .nil
  | cons target rest ih =>
    obtain ⟨key, target⟩ := target
    cases target with
    | END =>
      unfold resolveTargets
      rw [leads_bind]
      exact ih.mono (fun _ _ h => h) fun _ _ h => h
    | id nodeId =>
      unfold resolveTargets
      rw [leads_bind]
      exact ih.mono (fun _ _ h => h) fun _ _ h => h
    | item item =>
      unfold resolveTargets
      rw [leads_bind]
      refine (leads_addTarget item (itemsOf rest)).mono (fun _ g₁ hstep => ?_) fun _ _ h => h
      rw [leads_bind]
      exact (ih (g := g₁)).mono (fun _ h hrest => (hstep h).1 hrest)
        fun _ h hstuck => (hstep h).2 hstuck

/-- The nodes of these requests are stored. The edges may have changed since. -/
def Done (g : WorkflowGraph) (rs : List Request) (h : WorkflowGraph) : Prop :=
  ∃ stored, Stored g rs stored ∧ h.nodes = stored.nodes

theorem leads_modify_done {α : Type} {x : Build α} {f : α → WorkflowGraph → WorkflowGraph}
    {g₀ : WorkflowGraph} {rs : List Request} (hf : ∀ a h, (f a h).nodes = h.nodes)
    (hx : Leads x (fun _ h => Stored g₀ rs h) (fun _ h => Stuck g₀ rs h) g) :
    Leads (x >>= fun a => modify (f a)) (fun _ h => Done g₀ rs h) (fun _ h => Stuck g₀ rs h) g := by
  rw [leads_bind]
  exact hx.mono (fun a h hstored => ⟨h, hstored, hf a h⟩) fun _ _ h => h

theorem nodes_follow (nodeId : String) (h : WorkflowGraph) : (follow nodeId h).nodes = h.nodes := by
  unfold follow
  cases h.lastNode <;> rfl

theorem nodes_loopBack (nodeId : String) (condition : PyDict → Except Raised Bool)
    (maxIterations : Int) (h : WorkflowGraph) :
    (loopBack nodeId condition maxIterations h).nodes = h.nodes := by
  unfold loopBack
  cases h.lastNode with
  | none => rfl
  | some last =>
    dsimp only
    split <;> rfl

theorem nodes_fork (condition : PyDict → Counters → Except Raised (Routed × Counters))
    (paths : List (String × Target)) (h : WorkflowGraph) :
    (fork condition paths h).nodes = h.nodes := by
  unfold fork
  cases h.lastNode <;> rfl

/-- The flags of a subgraph are those that its call asks for. -/
theorem node_nestedItem (name : String) (run : PyDict → Moment → Except Raised PyDict)
    (inputMapper outputMapper : Option (PyDict → Except Raised PyDict)) (before after : Bool) :
    Request.node ⟨name, nestedItem run inputMapper outputMapper before after, none, false, false⟩ =
      Request.node
        ⟨name, nestedItem run inputMapper outputMapper false false, none, before, after⟩ := by
  cases before <;> cases after <;> rfl

/-- A nested graph is compiled before any node is stored. -/
theorem leads_nest (runs : CompiledGraph → PyDict → Moment → Except Raised PyDict)
    (nested : Nested) :
    Leads (nest runs nested)
      (fun run h => nestedRun runs g nested = some run ∧ h.nodes = g.nodes ∧
        ∀ name inputMapper outputMapper before after, h = (Call.subgraph runs name (.ok nested)
          inputMapper outputMapper before after).prepared g)
      (fun _ h => nestedRun runs g nested = none ∧
        ∀ name inputMapper outputMapper before after, h = (Call.subgraph runs name (.ok nested)
          inputMapper outputMapper before after).prepared g) g := by
  cases nested with
  | compiled run => exact ⟨rfl, rfl, fun _ _ _ _ _ => rfl⟩
  | other compile =>
    cases compile with
    | ok run => exact ⟨rfl, rfl, fun _ _ _ _ _ => rfl⟩
    | error e => exact ⟨rfl, fun _ _ _ _ _ => rfl⟩
  | itself =>
    unfold nest nestedRun Call.prepared
    rw [leads_bind, leads_get, leads_bind, leads_lift]
    cases hG : g.compile 50 with
    | ok G =>
      refine ⟨fun a ha => ?_, nofun⟩
      cases ha
      rw [leads_bind, leads_set, leads_pure]
      exact ⟨rfl, rfl, fun _ _ _ _ _ => rfl⟩
    | error e => exact ⟨nofun, fun _ _ => ⟨rfl, fun _ _ _ _ _ => rfl⟩⟩

theorem leads_named {name : Except Failure String} {x : String → Build Unit}
    {requests : List Request} (hname : ∀ nodeId, name = .ok nodeId →
      Leads (x nodeId) (fun _ h => Done g requests h) (fun _ h => Stuck g requests h) g)
    (hnone : ∀ e, name = .error e → requests = []) :
    Leads (lift name >>= x) (fun _ h => Done g requests h) (fun _ h => Stuck g requests h) g := by
  rw [leads_bind, leads_lift]
  refine ⟨hname, fun e he => ?_⟩
  rw [hnone e he]
  exact .nothing

/-- A call stores what it asks for, one after the other. Where it fails, it leaves what it has
stored until then. -/
theorem leads_call (c : Call) :
    Leads c.run (fun _ h => Done (c.prepared g) (c.requests g) h)
      (fun _ h => Stuck (c.prepared g) (c.requests g) h) g := by
  cases c with
  | addNode nodeId item outputKey before after =>
    exact (leads_addNode_stuck nodeId item outputKey before after).mono
      (fun _ h hstored => ⟨h, hstored, rfl⟩) fun _ _ h => h
  | thenNode item name before after =>
    refine leads_named (fun nodeId hname => ?_) fun e he => ?_
    · refine leads_modify_done (fun _ => nodes_follow nodeId) ?_
      simp only [Call.requests, hname]
      exact leads_addNode_stuck nodeId item none before after
    · simp [Call.requests, he, requestFor]
  | subgraph runs name nested inputMapper outputMapper before after =>
    change Leads (lift nested >>= _) _ _ g
    rw [leads_bind, leads_lift]
    refine ⟨fun nested hnested => ?_, fun e he => ?_⟩
    · subst hnested
      rw [leads_bind]
      refine (leads_nest runs nested).mono ?_ ?_
      · rintro run h ⟨hrun, hnodes, hprepared⟩
        have hrequest : (Call.subgraph runs name (.ok nested) inputMapper outputMapper before
            after).requests g =
            [⟨name, nestedItem run inputMapper outputMapper false false, none, before, after⟩] := by
          simp [Call.requests, hrun]
        rw [hrequest, ← hprepared]
        refine leads_modify_done (fun _ => nodes_follow name) ?_
        -- The flags of the call are those of the node that is handed on.
        have hnode := node_nestedItem name run inputMapper outputMapper before after
        refine (leads_addNode name _ none false false).mono (fun _ h hstored => ?_) ?_
        · exact hstored.same rfl hnode
        · rintro _ _ ⟨rfl, hrefused⟩
          refine .refl fun r hr => ?_
          cases hr
          exact hrefused.same rfl hnode
      · rintro e h ⟨hrun, hprepared⟩
        rw [← hprepared]
        simp only [Call.requests, hrun]
        exact .nothing
    · subst he
      exact .nothing
  | parallel items names =>
    change Leads (addItems names 0 items >>= _) _ _ g
    rw [leads_bind]
    refine (leads_addItems names 0 items).mono (fun nodeNames h hstored => ?_) fun _ _ h => h
    rw [leads_bind, leads_get]
    cases h.parallelNodes with
    | some open_ => exact .all hstored
    | none => exact ⟨h, hstored, rfl⟩
  | join item name =>
    change Leads (get >>= _) _ _ g
    rw [leads_bind, leads_get]
    simp only [Call.requests]
    cases g.parallelNodes with
    | none => exact .nothing
    | some names =>
      refine leads_named (fun nodeId hname => ?_) fun e he => ?_
      · refine leads_modify_done (fun _ _ => rfl) ?_
        rw [hname]
        exact leads_addNode_stuck nodeId item none false false
      · simp [he, requestFor]
  | branch condition pathMap =>
    change Leads (get >>= _) _ _ g
    rw [leads_bind, leads_get]
    simp only [Call.requests]
    cases g.lastNode with
    | none => exact .nothing
    | some last =>
      exact leads_modify_done (fun paths => nodes_fork condition paths)
        (leads_resolveTargets pathMap.entries)
  | ifThen condition thenAgent elseAgent =>
    change Leads (addTarget thenAgent >>= _) _ _ g
    rw [leads_bind]
    refine (leads_addTarget thenAgent elseAgent.toList).mono (fun thenId g₁ hstep => ?_)
      fun _ _ h => h
    cases elseAgent with
    | none => exact ⟨_, (hstep g₁).1 .nil, nodes_fork _ _ _⟩
    | some elseAgent =>
      refine leads_modify_done (fun elseId => nodes_fork _ _) ?_
      refine (leads_addTarget elseAgent []).mono (fun _ g₂ hstep₂ => ?_) fun _ h hstuck => ?_
      · exact (hstep g₂).1 ((hstep₂ g₂).1 .nil)
      · exact (hstep h).2 hstuck
  | loop item condition maxIterations name =>
    rw [show (Call.loop item condition maxIterations name).prepared g = g from rfl]
    refine leads_named (fun nodeId hname => ?_) fun e he => ?_
    · refine leads_modify_done (fun _ => nodes_loopBack nodeId condition maxIterations) ?_
      simp only [Call.requests, hname, requestFor]
      refine (leads_addUnlessTaken nodeId item).mono (fun _ h hstep => ?_) ?_
      · by_cases hmem : nodeId ∈ g.nodes.keys
        · rw [if_pos hmem] at hstep
          subst hstep
          simpa [hmem] using Stored.nil
        · rw [if_neg hmem] at hstep
          simpa [hmem] using hstep
      · rintro _ h ⟨hsame, hmem, hrefused⟩
        have hrequests : ([⟨nodeId, item, none, false, false⟩] : List Request).filter
            (fun r => r.nodeId ∉ g.nodes.keys) = [⟨nodeId, item, none, false, false⟩] := by
          simp [hmem]
        rw [hrequests, hsame]
        refine .refl fun r hr => ?_
        cases hr
        exact hrefused
    · simp [Call.requests, he, requestFor]

end methods

/-! ## Flags -/

namespace Item

def asksBefore (item : Item) : Bool :=
  match item.kind with
  | .node node => node.interruptBefore
  | _ => false

def asksAfter (item : Item) : Bool :=
  match item.kind with
  | .node node => node.interruptAfter
  | _ => false

/-- The item is an agent, or a node of one. -/
def isAgent (item : Item) : Bool :=
  match item.kind with
  | .node (.agent _) | .agent .. => true
  | _ => false

end Item

namespace Request

/-- The item or the arguments ask for a pause before the node. -/
def wantsBefore (r : Request) : Bool := r.before || r.item.asksBefore

def wantsAfter (r : Request) : Bool := r.after || r.item.asksAfter

/-- An agent that is asked to pause is stored with an output key. -/
def Drops (r : Request) : Prop :=
  r.outputKey.getD "" ≠ "" ∧ r.item.isAgent = true ∧ (r.wantsBefore || r.wantsAfter) = true

theorem flags_withOutputKey (outputKey : Option String) (node : GraphNode) :
    ((withOutputKey outputKey node).interruptBefore = node.interruptBefore ∧
      (withOutputKey outputKey node).interruptAfter = node.interruptAfter) ↔
    ¬ (outputKey.getD "" ≠ "" ∧ (∃ n, node = .agent n) ∧
      (node.interruptBefore || node.interruptAfter) = true) := by
  cases node with
  | function n => simp [withOutputKey]
  | subgraph n => simp [withOutputKey]
  | agent n =>
    by_cases hkey : outputKey.getD "" = ""
    · simp [withOutputKey, hkey]
    · simp only [withOutputKey, hkey, if_false, GraphNode.interruptBefore,
        GraphNode.interruptAfter]
      cases n.interruptBefore <;> cases n.interruptAfter <;> simp [hkey]

/-- A wrapped item has the flags that are asked for, and is an agent node where it was one. -/
theorem flags_wrapAsNode {item : Item} {nodeId : String} {before after : Bool} {node : GraphNode}
    (h : item.wrapAsNode nodeId before after = .ok node) :
    node.interruptBefore = (before || item.asksBefore) ∧
      node.interruptAfter = (after || item.asksAfter) ∧
      ((∃ n, node = .agent n) ↔ item.isAgent = true) := by
  unfold Item.wrapAsNode at h
  unfold Item.asksBefore Item.asksAfter Item.isAgent
  cases hkind : item.kind with
  | node inner =>
    rw [hkind] at h
    cases h
    cases inner <;> simp [graph.wrapAsNode, GraphNode.interruptBefore, GraphNode.interruptAfter]
  | agent agentName run =>
    rw [hkind] at h
    cases h
    simp [GraphNode.interruptBefore, GraphNode.interruptAfter]
  | callable func =>
    rw [hkind] at h
    dsimp only at h
    split at h
    · cases h
      simp [GraphNode.interruptBefore, GraphNode.interruptAfter]
    · split at h
      · cases h
        simp [GraphNode.interruptBefore, GraphNode.interruptAfter]
      · cases h
  | other text typeName =>
    rw [hkind] at h
    cases h

theorem flags_node {r : Request} {node : GraphNode} (h : r.node = .ok node) :
    (node.interruptBefore = r.wantsBefore ∧ node.interruptAfter = r.wantsAfter) ↔ ¬ r.Drops := by
  unfold Request.node at h
  cases hwrapped : r.item.wrapAsNode r.nodeId r.before r.after with
  | error e =>
    rw [hwrapped] at h
    cases h
  | ok wrapped =>
    rw [hwrapped] at h
    cases h
    obtain ⟨hbefore, hafter, hagent⟩ := flags_wrapAsNode hwrapped
    have hflags := flags_withOutputKey r.outputKey wrapped
    rw [hbefore, hafter, hagent] at hflags
    exact hflags

end Request

theorem final_stored (g : WorkflowGraph) (c : Call) :
    ∃ done stored, done <+: c.requests g ∧ (∀ h, c.run g = .ok () h → done = c.requests g) ∧
      Stored (c.prepared g) done stored ∧ (final c.run g).nodes = stored.nodes := by
  have hleads := leads_call (g := g) c
  unfold Leads at hleads
  unfold final
  cases hrun : c.run g with
  | ok u h =>
    rw [hrun] at hleads
    obtain ⟨stored, hstored, hnodes⟩ := hleads
    exact ⟨_, stored, List.prefix_rfl, fun _ _ => rfl, hstored, hnodes⟩
  | error e h =>
    rw [hrun] at hleads
    obtain ⟨done, hprefix, hstored, -⟩ := hleads
    exact ⟨done, h, hprefix, nofun, hstored, rfl⟩

theorem nodes_prepared (g : WorkflowGraph) (c : Call) : (c.prepared g).nodes = g.nodes := by
  unfold Call.prepared
  split
  · split <;> rfl
  · rfl

/-- An agent that is stored with an output key loses its flags. -/
theorem an_output_key_drops_a_flag :
    ((final (Call.addNode "writer"
        ⟨.agent "writer" fun _ _ => ⟨[], false, .error ⟨"ValueError", "", false⟩⟩,
          some (.ok "writer"), none, 0⟩ (some "draft") true false).run
      (WorkflowGraph.new none "")).nodes.get? "writer").map GraphNode.interruptBefore =
        some false := by
  rfl

/-- What a call stores is stored as it asks for it, and the other nodes stay as they are: a node
has the flags that its item and the arguments ask for, but for an agent that is to pause and gets
an output key. -/
theorem flags_are_kept_iff (g : WorkflowGraph) (c : Call) :
    ∃ done, done <+: c.requests g ∧ (∀ h, c.run g = .ok () h → done = c.requests g) ∧
      (final c.run g).nodes.keys = g.nodes.keys ++ done.map Request.nodeId ∧
      (∀ nodeId ∈ g.nodes.keys, (final c.run g).nodes.get? nodeId = g.nodes.get? nodeId) ∧
      ∀ r ∈ done, ∃ node, (final c.run g).nodes.get? r.nodeId = some node ∧
        ((node.interruptBefore = r.wantsBefore ∧ node.interruptAfter = r.wantsAfter) ↔
          ¬ r.Drops) := by
  obtain ⟨done, stored, hprefix, hall, hstored, hnodes⟩ := final_stored g c
  rw [hnodes, ← nodes_prepared g c]
  refine ⟨done, hprefix, hall, hstored.keys, fun _ => hstored.kept, fun r hr => ?_⟩
  obtain ⟨node, hnode, hget⟩ := hstored.made hr
  exact ⟨node, hget, Request.flags_node hnode⟩

/-! ## Failed calls -/

/-- A builder is nested in itself, and its `compile` adds an edge to it. -/
def Call.ClosesItself (g : WorkflowGraph) : Call → Prop
  | subgraph _ _ (.ok .itself) .. => g.validate = .ok () ∧ g.closingEdge ≠ []
  | _ => False

theorem compile_ok_iff {g : WorkflowGraph} :
    (∃ G, g.compile 50 = .ok G) ↔ g.validate = .ok () := by
  unfold WorkflowGraph.compile
  cases g.validate with
  | ok u => simp
  | error e => simp

theorem prepared_eq_iff (g : WorkflowGraph) (c : Call) :
    c.prepared g = g ↔ ¬ c.ClosesItself g := by
  unfold Call.prepared Call.ClosesItself
  split
  · split
    · rename_i G hG
      have hvalid := compile_ok_iff.mp ⟨G, hG⟩
      simp only [hvalid, true_and, not_not]
      constructor
      · intro h
        simpa using congrArg WorkflowGraph.edges h
      · intro h
        rw [h, List.append_nil]
    · rename_i e he
      have hinvalid : g.validate ≠ .ok () := by
        intro h
        obtain ⟨G, hG⟩ := (compile_ok_iff (g := g)).mpr h
        rw [hG] at he
        cases he
      simp [hinvalid]
  · simp

theorem refused_prepared_iff (g : WorkflowGraph) (c : Call) (r : Request) :
    r.Refused (c.prepared g) ↔ r.Refused g := by
  unfold Request.Refused
  rw [nodes_prepared]

/-- A function that joins a group before an object that is no node stays in the graph. -/
theorem a_failed_group_leaves_its_first_node :
    ∃ e h, (Call.parallel
        [⟨.callable fun _ _ => .ok .empty, none, some "plan", 0⟩, ⟨.other "5" "int", none, none, 1⟩]
        none).run (WorkflowGraph.new none "") = .error e h ∧
      e.isGraphCompileError = true ∧ h.nodes.keys = ["plan"] ∧ h.entryPoint = some "plan" :=
  ⟨_, _, rfl, rfl, rfl, rfl⟩

/-- A failed call leaves the graph as it was if and only if the first node that it would store is
refused, or there is none, and the builder is not closed for its own sake. -/
theorem a_failed_call_changes_nothing_iff (g h : WorkflowGraph) (c : Call) (e : Failure)
    (herror : c.run g = .error e h) :
    h = g ↔ (∀ r ∈ (c.requests g).head?, r.Refused g) ∧ ¬ c.ClosesItself g := by
  have hleads := leads_call (g := g) c
  unfold Leads at hleads
  rw [herror] at hleads
  obtain ⟨done, hprefix, hstored, hfirst⟩ := hleads
  rw [← prepared_eq_iff]
  cases done with
  | nil =>
    cases hstored
    refine ⟨fun hsame => ⟨fun r hr => ?_, hsame⟩, fun hboth => hboth.2⟩
    exact (refused_prepared_iff g c r).mp (hfirst rfl r hr)
  | cons r rest =>
    obtain ⟨later, hlater⟩ := hprefix
    have hhead : r ∈ (c.requests g).head? := by
      rw [← hlater]
      rfl
    refine ⟨fun hsame => ?_, fun hboth => ?_⟩
    · have hkeys := hstored.keys
      rw [nodes_prepared, hsame] at hkeys
      simp at hkeys
    · exact absurd ((refused_prepared_iff g c r).mpr (hboth.1 r hhead)) hstored.not_refused

theorem a_reserved_id_is_refused_first :
    (∀ r ∈ ((Call.addNode START ⟨.other "5" "int", none, none, 1⟩ none false false).requests
        (WorkflowGraph.new none "")).head?, r.Refused (WorkflowGraph.new none "")) ∧
      ¬ (Call.addNode START ⟨.other "5" "int", none, none, 1⟩ none false false).ClosesItself
        (WorkflowGraph.new none "") :=
  (a_failed_call_changes_nothing_iff (WorkflowGraph.new none "") (WorkflowGraph.new none "")
    (.addNode START ⟨.other "5" "int", none, none, 1⟩ none false false)
    (.build (.reserved START)) rfl).mp rfl

end orchestra.builder
