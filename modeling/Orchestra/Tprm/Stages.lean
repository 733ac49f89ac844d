-- The nodes of the diligence graph: agents behind shims that hand the state over and turn what an
-- agent writes into an update. What a chain of them makes of a state, and that the engine makes
-- the same of it.
import Orchestra.Visits
import Orchestra.Tprm.State

open dicts logged orchestra.state orchestra.events orchestra.nodes orchestra.compiled
open orchestra.turns orchestra.runs orchestra.merging orchestra.graph orchestra.fluent
open orchestra.chains orchestra.visits orchestra.tprm.state

namespace orchestra.tprm.stages

/-! ## Shims -/

/-- An agent behind a shim. It is given the id of the run and the state, and writes each field
once at most. -/
structure Shim where
  id : String
  agentName : String
  outputKey : String
  call : String → PyDict → Except Raised (List Write)
  once : ∀ runId state writes, call runId state = .ok writes → (writes.map Write.key).Nodup

namespace Shim

/-- The input as a state. The mapper of a shim hands over a dict. -/
def stateOf : Value → PyDict
  | .dict entries => Dict.ofList entries
  | _ => .empty

/-- `AgentNode(agent=shim, map_output=True, input_mapper=lambda s: s)` -/
def agentNode (p : Shim) : AgentNode where
  agentName := p.agentName
  run input ctx := {
    events := []
    restrictedMode := ctx.restrictedMode
    result := (p.call ctx.runId (stateOf input)).map (fun writes => {
      agentName := p.agentName
      output := ""
      structuredOutput := none
      messages := []
      stateUpdates := tprm.state.updateOf writes }) }
  outputKey := none
  mapOutput := true
  inputMapper := some (fun state => .ok (.ofDict state))
  outputMapper := none
  interruptBefore := false
  interruptAfter := false

/-- The node that `add_node` makes of it. -/
def node (p : Shim) : GraphNode :=
  withOutputKey (some p.outputKey) (wrapAsNode false false (.agent p.agentNode))

theorem node_eq (p : Shim) : ∃ key, p.node = .agent { p.agentNode with outputKey := key } := by
  unfold node withOutputKey wrapAsNode
  simp only
  split
  · exact ⟨none, rfl⟩
  · exact ⟨some p.outputKey, rfl⟩

def worker (p : Shim) : Worker where
  id := p.id
  node := p.node
  steady := by
    obtain ⟨key, hkey⟩ := p.node_eq
    rw [hkey]
    exact ⟨rfl, rfl⟩

/-- What the engine gets from the agent. -/
def outcome (p : Shim) (runId : String) (state : PyDict) : Except EngineError (List Write) :=
  (p.call runId state).mapError (fun e => wrapError p.id p.node (.raised e))

theorem once_outcome {p : Shim} {runId : String} {state : PyDict} {writes : List Write}
    (h : p.outcome runId state = .ok writes) : (writes.map Write.key).Nodup := by
  unfold outcome at h
  rcases hcall : p.call runId state with e | writes'
  · rw [hcall] at h
    cases h
  · rw [hcall] at h
    cases h
    exact p.once _ _ _ hcall

/-- An agent behind a shim says nothing of its own: no output, no messages. Its update is what
the engine takes over, and no guardrail looks at it. -/
theorem executeAgentNode_shim (schema : Option Schema) (p : Shim) (key : Option String)
    (state : PyDict) (ctx : Ctx) :
    (executeAgentNode schema p.id { p.agentNode with outputKey := key } state ctx).result =
      ((p.call ctx.runId state).mapError EngineError.raised).map
        (fun writes => (tprm.state.updateOf writes, ctx.restrictedMode)) := by
  have hstate : stateOf (.ofDict state) = state := Dict.ofList_entries state
  have hinput : agentInput { p.agentNode with outputKey := key } state = .ok (.ofDict state) := rfl
  have hchecked : inputViolations ctx.config.guardrails (guardMessages (.ofDict state)) = .ok [] :=
    rfl
  unfold executeAgentNode
  simp only [hinput, hchecked, outside, pure_bind, ne_eq, not_true_eq_false, if_false]
  rw [Logged.bind_ok (a := ()) _ rfl]
  simp only [agentNode, hstate]
  rcases p.call ctx.runId state with e | writes
  · rfl
  · rfl

theorem executeNode_shim (schema : Option Schema) (p : Shim) (state : PyDict) (ctx : Ctx) :
    (executeNode schema p.id p.node state ctx).result =
      (p.outcome ctx.runId state).map
        (fun writes => (tprm.state.updateOf writes, ctx.restrictedMode)) := by
  obtain ⟨key, hkey⟩ := p.node_eq
  have hran := p.executeAgentNode_shim schema key state ctx
  unfold outcome
  rw [hkey]
  unfold executeNode
  rw [Logged.note_bind]
  simp only [Logged.mapError, hran]
  rcases p.call ctx.runId state with e | writes <;> rfl

end Shim

/-! ## Stages -/

/-- A stage of the graph: one shim, or some at once with the one that joins them. -/
inductive Stage
  | one (p : Shim)
  | fan (branches : List Shim) (join : Shim)

namespace Stage

def main : Stage → Shim
  | one p => p
  | fan _ join => join

def step : Stage → Step
  | one p => .single p.worker
  | fan branches join => .parallel (branches.map Shim.worker) join.worker

/-- The errors of branches. -/
def errorsOf (outcomes : List (Except EngineError (List Write))) : List EngineError :=
  outcomes.filterMap (fun o => match o with
    | .ok _ => none
    | .error e => some e)

def writesOf (outcomes : List (Except EngineError (List Write))) : List (List Write) :=
  outcomes.filterMap Except.toOption

/-- The state after the branches of a stage. -/
def spread (runId : String) (stage : Stage) (s : TPRMState) : Except EngineError TPRMState :=
  match stage with
  | one _ => .ok s
  | fan branches _ =>
    let outcomes := branches.map (fun b => b.outcome runId s.dump)
    if errorsOf outcomes ≠ [] then .error (parallelFailure (errorsOf outcomes))
    else .ok ((writesOf outcomes).foldl TPRMState.writeAll s)

end Stage

/-- What a chain of stages makes of a state. -/
def exec (runId : String) : List Stage → TPRMState → Except EngineError TPRMState
  | [], s => .ok s
  | stage :: rest, s => do
    let s ← stage.spread runId s
    let writes ← stage.main.outcome runId s.dump
    exec runId rest (s.writeAll writes)

/-- The states that the main shims of a chain of stages are given. -/
def given (runId : String) : List Stage → TPRMState → List (String × TPRMState)
  | [], _ => []
  | stage :: rest, s =>
    match stage.spread runId s with
    | .error _ => []
    | .ok s => (stage.main.id, s) ::
      match stage.main.outcome runId s.dump with
      | .error _ => []
      | .ok writes => given runId rest (s.writeAll writes)

section

variable {runId : String}

theorem exec_append (before after : List Stage) (s : TPRMState) :
    exec runId (before ++ after) s = (exec runId before s >>= exec runId after) := by
  induction before generalizing s with
  | nil => rfl
  | cons stage rest ih =>
    simp only [List.cons_append, exec, bind, Except.bind]
    rcases stage.spread runId s with e | s'
    · rfl
    · simp only
      rcases stage.main.outcome runId s'.dump with e | writes
      · rfl
      · exact ih _

theorem given_append {before : List Stage} {s s' : TPRMState}
    (h : exec runId before s = .ok s') (after : List Stage) :
    given runId (before ++ after) s = given runId before s ++ given runId after s' := by
  induction before generalizing s with
  | nil =>
    cases h
    rfl
  | cons stage rest ih =>
    simp only [exec, bind, Except.bind] at h
    simp only [List.cons_append, given]
    rcases hspread : stage.spread runId s with e | t
    · rw [hspread] at h
      cases h
    · simp only [hspread] at h ⊢
      rcases hout : stage.main.outcome runId t.dump with e | writes
      · rw [hout] at h
        cases h
      · simp only [hout] at h ⊢
        rw [ih h, List.cons_append]

/-- The shims of a chain are given states in their order, as far as the chain comes. -/
theorem ids_given (stages : List Stage) (s : TPRMState) :
    (given runId stages s).map Prod.fst <+: stages.map (fun stage => stage.main.id) := by
  induction stages generalizing s with
  | nil => exact List.prefix_rfl
  | cons stage rest ih =>
    simp only [given, List.map_cons]
    rcases stage.spread runId s with e | t
    · exact List.nil_prefix
    · simp only [List.map_cons]
      refine (List.prefix_cons_inj _).mpr ?_
      rcases stage.main.outcome runId t.dump with e | writes
      · exact List.nil_prefix
      · exact ih _

theorem outcome_of_ok {p : Shim} {state : PyDict} {writes : List Write}
    (h : p.call runId state = .ok writes) : p.outcome runId state = .ok writes := by
  unfold Shim.outcome
  rw [h]
  rfl

theorem call_of_ok {p : Shim} {state : PyDict} {writes : List Write}
    (h : p.outcome runId state = .ok writes) : p.call runId state = .ok writes := by
  unfold Shim.outcome at h
  rcases hcall : p.call runId state with e | writes'
  · rw [hcall] at h
    cases h
  · rw [hcall] at h
    cases h
    rfl

/-- A chain goes on from one shim with what the shim writes. -/
theorem exec_one_iff {p : Shim} {rest : List Stage} {s s' : TPRMState} :
    exec runId (.one p :: rest) s = .ok s' ↔
      ∃ writes, p.call runId s.dump = .ok writes ∧
        exec runId rest (s.writeAll writes) = .ok s' := by
  have hexec : exec runId (.one p :: rest) s =
      (p.outcome runId s.dump >>= fun writes => exec runId rest (s.writeAll writes)) := rfl
  rw [hexec]
  constructor
  · intro h
    rcases hout : p.outcome runId s.dump with e | writes
    · rw [hout] at h
      cases h
    · rw [hout] at h
      exact ⟨writes, call_of_ok hout, h⟩
  · rintro ⟨writes, hcall, hrest⟩
    rw [outcome_of_ok hcall]
    exact hrest

theorem given_one {p : Shim} {rest : List Stage} {s : TPRMState} {writes : List Write}
    (h : p.call runId s.dump = .ok writes) :
    given runId (.one p :: rest) s = (p.id, s) :: given runId rest (s.writeAll writes) := by
  show (p.id, s) :: (match p.outcome runId s.dump with
    | .error _ => []
    | .ok writes => given runId rest (s.writeAll writes)) = _
  rw [outcome_of_ok h]

/-- A shim whose writes are made of what a computation gives. -/
theorem exec_map_iff {α : Type} {p : Shim} {rest : List Stage} {s s' : TPRMState}
    {x : Except Raised α} {f : α → List Write} (h : p.call runId s.dump = x.map f) :
    exec runId (.one p :: rest) s = .ok s' ↔
      ∃ a, x = .ok a ∧ exec runId rest (s.writeAll (f a)) = .ok s' := by
  rw [exec_one_iff, h]
  rcases x with e | a <;> simp [Except.map]

theorem given_map {α : Type} {p : Shim} {rest : List Stage} {s : TPRMState}
    {x : Except Raised α} {f : α → List Write} {a : α} (h : p.call runId s.dump = x.map f)
    (hx : x = .ok a) :
    given runId (.one p :: rest) s = (p.id, s) :: given runId rest (s.writeAll (f a)) := by
  apply given_one
  rw [h, hx]
  rfl

/-- Branches that all end well, with what each of them writes. -/
theorem spread_fan {α : Type} {xs : List α} {branch : α → Shim} {join : Shim} {s : TPRMState}
    (writesOf : α → List Write)
    (h : ∀ a ∈ xs, (branch a).call runId s.dump = .ok (writesOf a)) :
    (Stage.fan (xs.map branch) join).spread runId s =
      .ok ((xs.map writesOf).foldl TPRMState.writeAll s) := by
  have hout : (xs.map branch).map (fun b => b.outcome runId s.dump) =
      xs.map (fun a => Except.ok (writesOf a)) := by
    rw [List.map_map]
    exact List.map_congr_left (fun a ha => outcome_of_ok (h a ha))
  have herrors : Stage.errorsOf (xs.map (fun a => Except.ok (writesOf a))) = [] := by
    simp [Stage.errorsOf, List.filterMap_map]
  have hwrites : Stage.writesOf (xs.map (fun a => Except.ok (writesOf a))) = xs.map writesOf := by
    unfold Stage.writesOf
    rw [List.filterMap_map, ← List.filterMap_eq_map]
    rfl
  simp only [Stage.spread, hout, herrors, hwrites, ne_eq, not_true_eq_false, if_false]

/-- A fan-out is its join on the state after the branches. -/
theorem exec_fan {branches : List Shim} {join : Shim} {s s' : TPRMState} (rest : List Stage)
    (h : (Stage.fan branches join).spread runId s = .ok s') :
    exec runId (.fan branches join :: rest) s = exec runId (.one join :: rest) s' ∧
      given runId (.fan branches join :: rest) s = given runId (.one join :: rest) s' := by
  constructor
  · simp only [exec, h]
    rfl
  · simp only [given, h]
    rfl

end

/-! ## The engine on stages -/

/-- The state class of the graph. -/
abbrev tprmClass : Option Schema := some TPRMState.schema

theorem visit_shim (p : Shim) (s : TPRMState) (ctx : Ctx) :
    ∃ ctx' : Ctx, ctx'.runId = ctx.runId ∧
      (visit p.worker s.held ctx).result =
        (p.outcome ctx.runId s.dump).map (fun writes => ((s.writeAll writes).held, ctx')) := by
  have hrun := p.executeNode_shim tprmClass s.dump
    (Loop.enter (⟨.node p.id, s.held, ctx, false⟩ : Loop tprmClass))
  refine ⟨{ Loop.enter (⟨.node p.id, s.held, ctx, false⟩ : Loop tprmClass) with
    nodeExecutionOrder := ctx.nodeExecutionOrder ++ [p.id] }, rfl, ?_⟩
  unfold visit completeNode emit
  rw [Logged.note_bind]
  show (executeNode tprmClass p.id p.node s.dump
    (Loop.enter (⟨.node p.id, s.held, ctx, false⟩ : Loop tprmClass)) >>= _).result = _
  rcases h : p.outcome ctx.runId s.dump with e | writes
  · rw [show (Loop.enter _).runId = ctx.runId from rfl, h] at hrun
    rw [Logged.bind_error _ hrun]
    rfl
  · rw [show (Loop.enter _).runId = ctx.runId from rfl, h] at hrun
    rw [Logged.bind_ok _ hrun]
    simp only [s.apply_writes (Shim.once_outcome h)]
    rfl

theorem mapIdx_map {α β γ : Type} {f : Nat → β → γ} {g : α → β} (xs : List α) :
    (xs.map g).mapIdx f = xs.mapIdx (fun i a => f i (g a)) := by
  induction xs generalizing f with
  | nil => rfl
  | cons a rest ih => simp [List.mapIdx_cons, ih]

theorem filterMap_mapIdx {α β γ : Type} {f : Nat → α → β} {g : β → Option γ} {h : α → Option γ}
    (hsame : ∀ i a, g (f i a) = h a) (xs : List α) :
    (xs.mapIdx f).filterMap g = xs.filterMap h := by
  induction xs generalizing f with
  | nil => rfl
  | cons a rest ih =>
    rw [List.mapIdx_cons, List.filterMap_cons, List.filterMap_cons, hsame,
      ih (fun i b => hsame (i + 1) b)]

/-- The branches of a stage write what they return, one after the other. -/
theorem spread_stage (env : Env) (stage : Stage) (s : TPRMState) (ctx : Ctx) :
    (chains.spread env stage.step s.held ctx).result =
      (stage.spread ctx.runId s).map TPRMState.held := by
  cases stage with
  | one p => rfl
  | fan branches join =>
    show (fanOut env ctx parallelFailure
      ((branches.map Shim.worker).map (fun b => ⟨b.id, b.node, s.dump⟩)) s.held).result = _
    rw [List.map_map]
    have herrors : ((runBranches tprmClass ctx (branches.map
        ((fun b : Worker => (⟨b.id, b.node, s.dump⟩ : Branch)) ∘ Shim.worker))).filterMap errorOf) =
        Stage.errorsOf (branches.map (fun b => b.outcome ctx.runId s.dump)) := by
      unfold runBranches Stage.errorsOf
      rw [mapIdx_map, List.filterMap_map]
      refine filterMap_mapIdx (fun i b => ?_) branches
      have hrun := b.executeNode_shim tprmClass s.dump (ctx.cloneForBranch b.id i)
      simp only [errorOf, Function.comp_apply, Shim.worker, hrun]
      rw [show (ctx.cloneForBranch b.id i).runId = ctx.runId from rfl]
      rcases b.outcome ctx.runId s.dump with e | writes <;> rfl
    have hupdates : ((runBranches tprmClass ctx (branches.map
        ((fun b : Worker => (⟨b.id, b.node, s.dump⟩ : Branch)) ∘ Shim.worker))).filterMap
          compiled.updateOf) =
        (Stage.writesOf (branches.map (fun b => b.outcome ctx.runId s.dump))).map
          tprm.state.updateOf := by
      unfold runBranches Stage.writesOf
      rw [mapIdx_map, List.filterMap_map, List.map_filterMap]
      refine filterMap_mapIdx (fun i b => ?_) branches
      have hrun := b.executeNode_shim tprmClass s.dump (ctx.cloneForBranch b.id i)
      simp only [compiled.updateOf, Function.comp_apply, Shim.worker, hrun]
      rw [show (ctx.cloneForBranch b.id i).runId = ctx.runId from rfl]
      rcases b.outcome ctx.runId s.dump with e | writes <;> rfl
    unfold fanOut
    simp only [herrors, hupdates, Logged.notes, Stage.spread]
    split
    · rfl
    · have hnodup : ∀ writes ∈ Stage.writesOf (branches.map (fun b => b.outcome ctx.runId s.dump)),
          (writes.map Write.key).Nodup := by
        intro writes hmem
        obtain ⟨o, ho, hwrites⟩ := List.mem_filterMap.mp hmem
        obtain ⟨b, -, rfl⟩ := List.mem_map.mp ho
        rcases hout : b.outcome ctx.runId s.dump with e | found
        · simp [hout, Except.toOption] at hwrites
        · simp only [hout, Except.toOption, Option.some.injEq] at hwrites
          subst hwrites
          exact Shim.once_outcome hout
      exact s.merge_writes hnodup

/-- The engine makes of a state what the stages make of it. -/
theorem execChain_stages (env : Env) (stages : List Stage) (s : TPRMState) (ctx : Ctx) :
    (execChain env (stages.map Stage.step) s.held ctx).result.map Prod.fst =
      (exec ctx.runId stages s).map TPRMState.held := by
  induction stages generalizing s ctx with
  | nil => rfl
  | cons stage rest ih =>
    have hspread := spread_stage env stage s ctx
    have hwork : ∀ (state : WorkflowState tprmClass) ctx,
        work stage.step state ctx = visit stage.main.worker state ctx := by
      cases stage <;> exact fun _ _ => rfl
    simp only [List.map_cons, execChain, exec, hwork]
    rcases hs : stage.spread ctx.runId s with e | s'
    · rw [hs] at hspread
      rw [Logged.bind_error _ hspread]
      rfl
    · rw [hs] at hspread
      rw [Logged.bind_ok _ hspread]
      obtain ⟨ctx', hrunId, hvisit⟩ := visit_shim stage.main s' ctx
      show (_ >>= _ : Eng (WorkflowState tprmClass × Ctx)).result.map Prod.fst =
        ((stage.main.outcome ctx.runId s'.dump >>= _).map TPRMState.held)
      rcases hout : stage.main.outcome ctx.runId s'.dump with e | writes
      · rw [hout] at hvisit
        rw [Logged.bind_error _ hvisit]
        rfl
      · rw [hout] at hvisit
        rw [Logged.bind_ok _ hvisit]
        have hrest := ih (s'.writeAll writes) ctx'
        rw [hrunId] at hrest
        exact hrest

/-- The shims of a chain of stages are given the states that the stages say. -/
theorem visitsOf_stages (env : Env) (stages : List Stage) (s : TPRMState) (ctx : Ctx) :
    visitsOf env (stages.map Stage.step) s.held ctx =
      (given ctx.runId stages s).map (fun v => (v.1, v.2.dump)) := by
  induction stages generalizing s ctx with
  | nil => rfl
  | cons stage rest ih =>
    have hspread := spread_stage env stage s ctx
    have hmain : stage.step.main = stage.main.worker := by cases stage <;> rfl
    simp only [List.map_cons, visitsOf, given, hmain]
    rcases hs : stage.spread ctx.runId s with e | s'
    · simp only [hspread, hs, Except.map, List.map_nil]
    · simp only [hspread, hs, Except.map]
      obtain ⟨ctx', hrunId, hvisit⟩ := visit_shim stage.main s' ctx
      rcases hout : stage.main.outcome ctx.runId s'.dump with e | writes
      · simp only [hvisit, hout, Except.map]
        rfl
      · simp only [hvisit, hout, Except.map, List.map_cons, ih, hrunId]
        rfl

end orchestra.tprm.stages
