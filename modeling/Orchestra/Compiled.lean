-- The execution engine of `compiled.py`: how a run leaves a node, one turn of
-- the loop, and the loop itself, up to its last event.
import Orchestra.Nodes
import Orchestra.Distill

open dicts logged orchestra.state orchestra.edges orchestra.events orchestra.nodes orchestra.distill

namespace orchestra.compiled

/-! ## The graph and its state -/

structure CompiledGraph where
  nodes : Dict String GraphNode
  edges : List GraphEdge
  entryPoint : String
  schema : Option Schema
  maxTurns : Nat
  name : String
  handoffEdges : List HandoffEdge

/-- `_edge_map.get(source, [])` -/
def CompiledGraph.edgesFrom (G : CompiledGraph) (source : String) : List GraphEdge :=
  G.edges.filter (fun e => e.source = source)

/-- The state of a run: a dict that validation leaves as it is, or any dict
when the graph has no state class. -/
structure WorkflowState (schema : Option Schema) where
  data : PyDict
  settled : ∀ S ∈ schema, S.validate data = .ok data

variable {schema : Option Schema}

namespace WorkflowState

theorem ext_data {s t : WorkflowState schema} (h : s.data = t.data) : s = t := by
  cases s
  cases t
  simp only at h
  subst h
  rfl

/-- `model_validate(d)`, or the dict itself. The error of pydantic passes as
it is. -/
def ofDict (schema : Option Schema) (d : PyDict) : Except EngineError (WorkflowState schema) :=
  match schema with
  | none => .ok ⟨d, by simp⟩
  | some S =>
    match h : S.validate d with
    | .ok s => .ok ⟨s, by
        intro T hT
        cases hT
        exact S.validate_dump d s h⟩
    | .error e => .error (.raised ⟨"ValidationError", e, false⟩)

theorem ofDict_data (state : WorkflowState schema) : ofDict schema state.data = .ok state := by
  rcases state with ⟨d, hd⟩
  cases schema with
  | none => rfl
  | some S =>
    unfold ofDict
    simp only
    split
    · rename_i s hs
      rw [hd S rfl] at hs
      exact congrArg Except.ok (ext_data (Except.ok.inj hs).symm)
    · rename_i e he
      rw [hd S rfl] at he
      cases he

/-- A state class does not see the loop counters. -/
theorem ofDict_counters (hschema : schema ≠ none) (d : PyDict) (counters : Value) :
    ofDict schema (d.set loopCountersKey counters) = ofDict schema d := by
  cases schema with
  | none => exact absurd rfl hschema
  | some S =>
    have hvalid := S.validate_extra d loopCountersKey counters S.no_counters
    unfold ofDict
    simp only
    split
    · rename_i s hs
      split
      · rename_i s' hs'
        rw [hvalid, hs'] at hs
        exact congrArg Except.ok (ext_data (Except.ok.inj hs).symm)
      · rename_i e he
        rw [hvalid, he] at hs
        cases hs
    · rename_i e he
      split
      · rename_i s' hs'
        rw [hvalid, hs'] at he
        cases he
      · rename_i e' he'
        rw [hvalid, he'] at he
        cases he
        rfl

/-- An update in the way of the state: by the reducers, or over the old keys. -/
def apply (state : WorkflowState schema) (update : PyDict) :
    Except EngineError (WorkflowState schema) :=
  match schema, state with
  | none, state => .ok ⟨state.data.update update, by simp⟩
  | some S, state =>
    match h : applyStateUpdate S state.data update with
    | .ok s => .ok ⟨s, by
        intro T hT
        cases hT
        exact applyStateUpdate_dump h⟩
    | .error e => .error e

/-- `if update:` and then the update. An empty one is not applied. -/
def applyAny (state : WorkflowState schema) (update : PyDict) :
    Except EngineError (WorkflowState schema) :=
  if update.entries.isEmpty then .ok state else state.apply update

/-- The updates of parallel branches, one after the other. -/
def merge (state : WorkflowState schema) (updates : List PyDict) :
    Except EngineError (WorkflowState schema) :=
  match schema, state with
  | none, state => .ok ⟨updates.foldl (fun d update => d.update update) state.data, by simp⟩
  | some S, state =>
    match h : mergeParallelUpdates S state.data updates with
    | .ok s => .ok ⟨s, by
        intro T hT
        cases hT
        exact mergeParallelUpdates_dump (state.settled S rfl) h⟩
    | .error e => .error e

end WorkflowState

/-- What lies outside of the engine: the order in which parallel branches get
to write, and the price of a call of a model. -/
structure Env where
  gather : List (List Note) → List Note
  gather_perm : ∀ logs, (gather logs).Perm logs.flatten
  gather_order : ∀ logs, ∀ log ∈ logs, List.Sublist log (gather logs)
  price : String → Nat → Nat → Rat

/-! ## Fan-out -/

/-- A branch of a fan-out: a node, and the state that it gets. -/
structure Branch where
  nodeId : String
  node : GraphNode
  state : PyDict

/-- `self._nodes[target]` for each target. -/
def lookupNodes (G : CompiledGraph) : List Target → Except EngineError (List (String × GraphNode))
  | [] => .ok []
  | .END :: _ => .error (.keyError .END)
  | .node id :: rest =>
    match G.nodes.get? id with
    | none => .error (.keyError (.node id))
    | some node =>
      match lookupNodes G rest with
      | .ok found => .ok ((id, node) :: found)
      | .error e => .error e

/-- The runs of all branches, each in its own context. -/
def runBranches (schema : Option Schema) (ctx : Ctx) (branches : List Branch) :
    List (Eng (PyDict × Bool)) :=
  branches.mapIdx (fun i b =>
    executeNode schema b.nodeId b.node b.state (ctx.cloneForBranch b.nodeId i))

def errorOf {α : Type} (x : Eng α) : Option EngineError :=
  match x.result with
  | .ok _ => none
  | .error e => some e

def updateOf (x : Eng (PyDict × Bool)) : Option PyDict :=
  match x.result with
  | .ok (update, _) => some update
  | .error _ => none

/-- `asyncio.gather` of the branches, then the merge of their updates. All
branches run to their end, also when one of them fails. -/
def fanOut (env : Env) (ctx : Ctx) (failure : List EngineError → EngineError)
    (branches : List Branch) (state : WorkflowState schema) : Eng (WorkflowState schema) :=
  let runs := runBranches schema ctx branches
  let errors := runs.filterMap errorOf
  Logged.notes (env.gather (runs.map (·.log)))
    (if errors ≠ [] then .error (failure errors) else state.merge (runs.filterMap updateOf))

def parallelFailure (errors : List EngineError) : EngineError :=
  .parallelFailed (errors.map (·.message))

def sendFailure (errors : List EngineError) : EngineError :=
  .sendFailed (match errors with
    | e :: _ => e.message
    | [] => "")

/-- `_execute_parallel` -/
def executeParallel (G : CompiledGraph) (env : Env) (ctx : Ctx) (edge : ParallelEdge)
    (stateDict : PyDict) (state : WorkflowState G.schema) : Eng (WorkflowState G.schema) := do
  let targets ← Logged.ofExcept (lookupNodes G edge.targets)
  fanOut env ctx parallelFailure (targets.map (fun t => ⟨t.1, t.2, stateDict⟩)) state

/-- `_execute_sends` -/
def executeSends (G : CompiledGraph) (env : Env) (ctx : Ctx) (sends : List Send)
    (stateDict : PyDict) (state : WorkflowState G.schema) : Eng (WorkflowState G.schema) := do
  let targets ← Logged.ofExcept (lookupNodes G (sends.map (fun s => .node s.node)))
  fanOut env ctx sendFailure
    (List.zipWith (fun t s => ⟨t.1, t.2, stateDict.update s.state⟩) targets sends) state

/-! ## Handoff -/

/-- The first handoff edge of a node whose condition holds. -/
def pickHandoff (source : String) (stateDict : PyDict) :
    List HandoffEdge → Except Raised (Option HandoffEdge)
  | [] => .ok none
  | e :: rest =>
    if e.source = source then
      match e.condition.elim (.ok true) (· stateDict) with
      | .error error => .error error
      | .ok true => .ok (some e)
      | .ok false => pickHandoff source stateDict rest
    else pickHandoff source stateDict rest

def handoffPayload (e : HandoffEdge) (history : List Value) : Value :=
  .obj "HandoffPayload"
    [("from_agent", .str e.source), ("to_agent", .str e.target),
      ("reason", .str "explicit_handoff"), ("conversation_history", .list history),
      ("metadata", .list []), ("distilled", .bool e.distill)]

/-- The update with which a handoff reaches the next agent. -/
def handoffFields (e : HandoffEdge) (history : List Value) : List (String × Value) :=
  [("handoff_payload", handoffPayload e history), ("messages", .list history)]

def handoff (ctx : Ctx) (e : HandoffEdge) (stateDict : PyDict) (state : WorkflowState schema) :
    Eng (WorkflowState schema) := do
  let messages := (stateDict.get? "messages").getD (.list [])
  let history ← outside (if e.distill then distillContext messages else fullPassthrough messages)
  if ctx.hasBus then
    emit (.handoffInitiated e.source e.target "explicit_handoff")
    Logged.note (.built ((handoffFields e history).map (·.1)))
    Logged.ofExcept (state.apply (Dict.ofList (handoffFields e history)))
  else
    Logged.fail .noEventBus

/-! ## The way out of a node -/

/-- What `_resolve_next` leaves: the next node and the new state that it
returns, and what it wrote to the dict and to the counters it was given. -/
structure Resolution (schema : Option Schema) where
  next : Target
  state : WorkflowState schema
  stateDict : PyDict
  loopCounters : Counters

/-- `_resolve_next`. Only the first edge out of a node counts, and the handoff
edges only when there is none. -/
def resolveNext (G : CompiledGraph) (env : Env) (ctx : Ctx) (nodeId : String)
    (stateDict : PyDict) (state : WorkflowState G.schema) : Eng (Resolution G.schema) :=
  match G.edgesFrom nodeId with
  | .plain _ target :: _ => pure ⟨target, state, stateDict, ctx.loopCounters⟩
  | .conditional e :: _ => do
    let shown := stateDict.set loopCountersKey ctx.loopCounters.value
    let (result, counters) ← Logged.ofExcept (e.resolve shown ctx.loopCounters)
    let stateDict := stateDict.set loopCountersKey counters.value
    match result with
    | .next target => pure ⟨target, state, stateDict, counters⟩
    | .sends sends =>
      let state ← executeSends G env ctx sends stateDict state
      pure ⟨.END, state, stateDict, counters⟩
  | .parallel e :: _ => do
    let state ← executeParallel G env ctx e stateDict state
    pure ⟨e.joinNode.getD .END, state, stateDict, ctx.loopCounters⟩
  | [] => do
    match ← outside (pickHandoff nodeId stateDict G.handoffEdges) with
    | none => pure ⟨.END, state, stateDict, ctx.loopCounters⟩
    | some e =>
      let state ← handoff ctx e stateDict state
      pure ⟨.node e.target, state, stateDict, ctx.loopCounters⟩

/-! ## One turn of the loop -/

/-- The variables of the loop in `_run_loop`. The turns are counted in the
context. -/
structure Loop (schema : Option Schema) where
  current : Target
  state : WorkflowState schema
  ctx : Ctx
  bypass : Bool

/-- What a pause saves of the run. `nodeId` is where to go on. -/
structure Pause where
  interruptedAt : String
  type : InterruptType
  nodeId : String
  state : PyDict
  loopCounters : Counters
  nodeExecutionOrder : List String

inductive TurnEnd (schema : Option Schema)
  | next (loop : Loop schema)
  | paused (pause : Pause)

/-- The context at the start of a turn. -/
def Loop.enter (L : Loop schema) : Ctx :=
  { L.ctx with
    turnNumber := L.ctx.turnNumber + 1
    nodeId := L.current.text
    moment := ⟨L.ctx.nodeExecutionOrder, none⟩ }

/-- The middle of a turn: run the node, apply its update, say so. -/
def completeNode (nodeId : String) (node : GraphNode) (state : WorkflowState schema) (ctx : Ctx) :
    Eng (WorkflowState schema × Ctx) := do
  emit (.nodeStarted nodeId node.typeName)
  let (update, restrictedMode) ← executeNode schema nodeId node state.data ctx
  let ctx := { ctx with
    restrictedMode
    nodeExecutionOrder := ctx.nodeExecutionOrder ++ [nodeId] }
  let state ← Logged.ofExcept (state.applyAny update)
  emit (.nodeCompleted nodeId node.typeName update)
  Logged.note (.holds state.data)
  pure (state, ctx)

/-- One turn of the loop: the pause before the node, the node, the pause after
it or the way to the next one. A pause after a node keeps the dict that the
resolution was given and drops the state that it returned. -/
def turn (G : CompiledGraph) (env : Env) (L : Loop G.schema) : Eng (TurnEnd G.schema) :=
  let nodeId := L.current.text
  match G.nodes.get? nodeId with
  | none => Logged.fail (.nodeNotFound nodeId G.nodes.keys)
  | some node =>
    if node.interruptBefore && !L.bypass then do
      emit (.interruptRequested nodeId .before)
      pure (.paused ⟨nodeId, .before, nodeId, L.state.data, L.ctx.loopCounters,
        L.ctx.nodeExecutionOrder⟩)
    else do
      let (state, ctx) ← completeNode nodeId node L.state L.enter
      let r ← resolveNext G env ctx nodeId state.data state
      if node.interruptAfter then
        emit (.interruptRequested nodeId .after)
        pure (.paused ⟨nodeId, .after, r.next.text, r.stateDict, r.loopCounters,
          ctx.nodeExecutionOrder⟩)
      else
        pure (.next ⟨r.next, r.state, { ctx with loopCounters := r.loopCounters }, false⟩)

/-! ## The loop -/

/-- How the loop ends. A failure names the node of the context. -/
inductive Ending
  | completed (state : PyDict)
  | interrupted (pause : Pause)
  | failed (nodeId : String) (error : EngineError)

structure LoopRun where
  log : List Note
  ending : Ending

/-- The loop, with `left` turns left. -/
def loopFrom (G : CompiledGraph) (env : Env) : Nat → Loop G.schema → LoopRun
  | 0, L =>
    if L.current = .END then ⟨[], .completed L.state.data⟩
    else ⟨[], .failed L.ctx.nodeId (.maxIterations G.maxTurns L.current)⟩
  | left + 1, L =>
    if L.current = .END then ⟨[], .completed L.state.data⟩
    else
      let t := turn G env L
      match t.result with
      | .error e => ⟨t.log, .failed L.current.text e⟩
      | .ok (.paused p) => ⟨t.log, .interrupted p⟩
      | .ok (.next L') =>
        let rest := loopFrom G env left L'
        ⟨t.log ++ rest.log, rest.ending⟩

/-- The `while` of `_run_loop`, which counts its turns up to `max_turns`. -/
def runLoop (G : CompiledGraph) (env : Env) (L : Loop G.schema) : LoopRun :=
  loopFrom G env (G.maxTurns - L.ctx.turnNumber) L

/-! ## The last events -/

/-- The totals of the cost aggregator over the calls of models so far. -/
def usage (price : String → Nat → Nat → Rat) (es : List Emission) : Nat × Rat :=
  es.foldl (fun total e =>
    match e.body with
    | .agent _ (.llmCalled _ model _ _ inputTokens outputTokens _ _) =>
      (total.1 + (inputTokens + outputTokens), total.2 + price model inputTokens outputTokens)
    | _ => total) (0, 0)

/-- What a call of the engine gives back to its caller. -/
inductive Outcome
  | completed (state : PyDict)
  | interrupted (pause : Pause)
  | raised (error : EngineError)

/-- What the caller gets for an ending. -/
def Ending.outcome : Ending → Outcome
  | .completed state => .completed state
  | .interrupted p => .interrupted p
  | .failed _ e => .raised e

structure EngineRun where
  log : List Note
  outcome : Outcome

/-- The events that end a run, after `before`. Only a run that `run` started
has a cost aggregator, so only it is `metered`. -/
def finish (env : Env) (metered : Bool) (before : List Note) (r : LoopRun) : EngineRun :=
  let log := before ++ r.log
  let total := if metered then usage env.price (emissions log) else (0, 0)
  match r.ending with
  | .completed state =>
    ⟨log ++ [.emit ⟨.executionCompleted state total.1 total.2 "completed", true⟩],
      .completed state⟩
  | .interrupted p => ⟨log, .interrupted p⟩
  | .failed nodeId e =>
    ⟨log ++ [.emit ⟨.errorOccurred nodeId e.type e.message, true⟩,
        .emit ⟨.executionCompleted .empty total.1 total.2 "failed", true⟩],
      .raised e⟩

theorem outcome_finish (env : Env) (metered : Bool) (before : List Note) (r : LoopRun) :
    (finish env metered before r).outcome = r.ending.outcome := by
  rcases he : r.ending with state | p | ⟨nodeId, e⟩ <;> simp only [finish, he, Ending.outcome]

/-- The last events call no node. -/
theorem ranNodes_finish (env : Env) (metered : Bool) (before : List Note) (r : LoopRun) :
    ranNodes (finish env metered before r).log = ranNodes before ++ ranNodes r.log := by
  rcases he : r.ending with state | p | ⟨nodeId, e⟩
  all_goals
    simp only [finish, he, ranNodes_append]
  · exact List.append_nil _
  · exact List.append_nil _

end orchestra.compiled
