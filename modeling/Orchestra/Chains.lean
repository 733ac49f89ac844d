-- What a chain of the fluent API means: its steps, one after the other. The compiled graph
-- follows the chain up to its first loop, and ends there.
import Orchestra.Fluent
import Orchestra.Lockdown

open dicts logged machine orchestra.state orchestra.edges orchestra.events orchestra.nodes
open orchestra.compiled orchestra.turns orchestra.runs orchestra.lockdown orchestra.graph
open orchestra.fluent

namespace orchestra.chains

variable {G : CompiledGraph} {env : Env} {schema : Option Schema}

/-! ## The meaning of a chain -/

/-- Run one node, in its own turn. -/
def visit (w : Worker) (state : WorkflowState schema) (ctx : Ctx) :
    Eng (WorkflowState schema × Ctx) :=
  completeNode w.id w.node state (Loop.enter ⟨.node w.id, state, ctx, false⟩)

def loopId (w : Worker) : String := "__loop_" ++ w.id

/-- The rounds of a loop, of which the next one has the number `count` and is followed by
`left` more at most. The condition is asked after each round but the last one that is
allowed, and sees the number of the round. -/
def rounds (w : Worker) (condition : PyDict → Except Raised Bool) :
    Nat → Nat → WorkflowState schema → Ctx → Eng (WorkflowState schema × Ctx)
  | 0, count, state, ctx => do
    let (state, ctx) ← visit w state ctx
    pure (state, { ctx with
      loopCounters := (ctx.loopCounters.set (loopId w) count).erase (loopId w) })
  | left + 1, count, state, ctx => do
    let (state, ctx) ← visit w state ctx
    let counted : Counters := ctx.loopCounters.set (loopId w) count
    let again ← outside (condition (state.data.set loopCountersKey counted.value))
    if again then rounds w condition left (count + 1) state { ctx with loopCounters := counted }
    else pure (state, { ctx with loopCounters := counted.erase (loopId w) })

/-- The branches of a step, each on the state before it. -/
def spread (env : Env) (s : Step) (state : WorkflowState schema) (ctx : Ctx) :
    Eng (WorkflowState schema) :=
  match s with
  | .parallel branches _ => fanOut env ctx parallelFailure
      (branches.map (fun b => ⟨b.id, b.node, state.data⟩)) state
  | _ => pure state

/-- The main node of a step, in a loop until the condition is false or `max_iterations` is
reached. -/
def work (s : Step) (state : WorkflowState schema) (ctx : Ctx) :
    Eng (WorkflowState schema × Ctx) :=
  match s with
  | .single w => visit w state ctx
  | .loop w condition maxIterations _ => rounds w condition (maxIterations - 1) 1 state ctx
  | .parallel _ join => visit join state ctx

/-- The steps of a chain in the order written. -/
def execChain (env : Env) : List Step → WorkflowState schema → Ctx →
    Eng (WorkflowState schema × Ctx)
  | [], state, ctx => pure (state, ctx)
  | s :: rest, state, ctx => do
    let state ← spread env s state ctx
    let (state, ctx) ← work s state ctx
    execChain env rest state ctx

/-- What the caller of a run gets. -/
def outcomeOf : Except EngineError (WorkflowState schema × Ctx) → Outcome
  | .ok (state, _) => .completed state.data
  | .error e => .raised e

/-- A run of the loop writes what a computation writes, and ends as it ends. -/
structure Tells (r : LoopRun) (x : Eng (WorkflowState schema × Ctx)) : Prop where
  log : r.log = x.log
  outcome : r.ending.outcome = outcomeOf x.result

/-! ## The order of the calls -/

/-- The calls of a step that ends well: each branch once, and then the main node. A loop
calls its node once at least, and `max_iterations` times at most. -/
def Calls (s : Step) (calls : List String) : Prop :=
  match s with
  | .single w => calls = [w.id]
  | .loop w _ maxIterations _ =>
    ∃ k, 1 ≤ k ∧ k ≤ maxIterations ∧ calls = List.replicate k w.id
  | .parallel branches join =>
    ∃ first, first.Perm (branches.map (·.id)) ∧ calls = first ++ [join.id]

/-- The calls of a chain, step by step. -/
def CallsAll : List Step → List String → Prop
  | [], calls => calls = []
  | s :: rest, calls => ∃ first later, Calls s first ∧ CallsAll rest later ∧ calls = first ++ later

theorem ranNodes_visit (w : Worker) (state : WorkflowState schema) (ctx : Ctx) :
    ranNodes (visit w state ctx).log = [w.id] := ranNodes_completeNode w.id w.node state _

theorem ranNodes_rounds {w : Worker} {condition : PyDict → Except Raised Bool}
    {left count : Nat} {state : WorkflowState schema} {ctx : Ctx}
    {done : WorkflowState schema × Ctx}
    (h : (rounds w condition left count state ctx).result = .ok done) :
    ∃ k, 1 ≤ k ∧ k ≤ left + 1 ∧
      ranNodes (rounds w condition left count state ctx).log = List.replicate k w.id := by
  have hvisit := ranNodes_visit w state ctx
  induction left generalizing count state ctx with
  | zero =>
    refine ⟨1, le_refl _, le_refl _, ?_⟩
    unfold rounds
    rw [ranNodes_bind (fun _ => rfl)]
    exact hvisit
  | succ left ih =>
    unfold rounds at h ⊢
    rcases hv : (visit w state ctx).result with e | ⟨state', ctx'⟩
    · rw [Logged.bind_error _ hv] at h
      cases h
    · rw [Logged.bind_ok _ hv] at h ⊢
      simp only [ranNodes_append, hvisit] at h ⊢
      rcases hc : condition (state'.data.set loopCountersKey
        (Counters.value (ctx'.loopCounters.set (loopId w) (count : Int)))) with e | _ | _
      · simp only [hc] at h
        cases h
      · exact ⟨1, le_refl _, by omega, rfl⟩
      · simp only [hc] at h
        obtain ⟨k, hk, hle, hcalls⟩ := ih h (ranNodes_visit _ _ _)
        refine ⟨k + 1, by omega, by omega, ?_⟩
        rw [List.replicate_succ]
        exact congrArg (w.id :: ·) hcalls

theorem ranNodes_work {s : Step} {state : WorkflowState schema} {ctx : Ctx}
    {done : WorkflowState schema × Ctx} (h : (work s state ctx).result = .ok done) :
    if s.isLoop then Calls s (ranNodes (work s state ctx).log)
    else ranNodes (work s state ctx).log = [s.main.id] := by
  cases s with
  | single w => exact ranNodes_visit w state ctx
  | parallel branches join => exact ranNodes_visit join state ctx
  | loop w condition maxIterations positive =>
    obtain ⟨k, hk, hle, hcalls⟩ := ranNodes_rounds h
    exact ⟨k, hk, by omega, hcalls⟩

/-- What a chain that ends well calls, in the order of its steps. -/
theorem calls_execChain {steps : List Step} {state : WorkflowState schema} {ctx : Ctx}
    {done : WorkflowState schema × Ctx} (h : (execChain env steps state ctx).result = .ok done) :
    CallsAll steps (ranNodes (execChain env steps state ctx).log) := by
  induction steps generalizing state ctx with
  | nil => rfl
  | cons s rest ih =>
    unfold execChain at h ⊢
    rcases hspread : (spread env s state ctx).result with e | state₁
    · rw [Logged.bind_error _ hspread] at h
      cases h
    rw [Logged.bind_ok _ hspread] at h ⊢
    rcases hwork : (work s state₁ ctx).result with e | ⟨state₂, ctx₂⟩
    · rw [Logged.bind_error _ hwork] at h
      cases h
    rw [Logged.bind_ok _ hwork] at h ⊢
    simp only [ranNodes_append]
    have hmain := ranNodes_work hwork
    rw [← List.append_assoc]
    refine ⟨_, _, ?_, ih h, rfl⟩
    cases s with
    | single w => exact hmain
    | loop w condition maxIterations positive => exact hmain
    | parallel branches join =>
      refine ⟨ranNodes (spread env (.parallel branches join) state ctx).log, ?_, ?_⟩
      · have hcalls : (ranNodes (spread env (.parallel branches join) state ctx).log).Perm _ :=
          ranNodes_fanOut ctx parallelFailure _ state
        rw [ids_branchVisits, List.map_map] at hcalls
        exact hcalls
      · exact congrArg _ hmain

/-! ## One turn -/

/-- The loop in front of a node. -/
def place (w : Worker) (state : WorkflowState schema) (ctx : Ctx) : Loop schema :=
  ⟨.node w.id, state, ctx, false⟩

/-- A turn at a node, and then what the run tells from where the turn leaves it. -/
theorem tells_turn {w : Worker} (hfound : G.nodes.get? w.id = some w.node)
    {state : WorkflowState G.schema} {ctx : Ctx} (hlt : ctx.turnNumber < G.maxTurns)
    {f : Ctx → Resolution G.schema → Eng (WorkflowState G.schema × Ctx)}
    (hnext : ∀ state' ctx' r, (visit w state ctx).result = .ok (state', ctx') →
      (resolveNext G env ctx' w.id state'.data state').result = .ok r →
      Tells (runLoop G env (Loop.after ctx' r)) (f ctx' r)) :
    Tells (runLoop G env (place w state ctx)) (do
      let (state', ctx') ← visit w state ctx
      let r ← resolveNext G env ctx' w.id state'.data state'
      f ctx' r) := by
  have hend : (place w state ctx).current ≠ .END := by simp [place]
  have hwalk : (do
      let (state', ctx') ← visit w state ctx
      let r ← resolveNext G env ctx' w.id state'.data state'
      f ctx' r) = walk G env (place w state ctx) w.node >>= fun done => f done.1 done.2 := by
    unfold walk
    simp only [bind_assoc, pure_bind]
    rfl
  have hturn : turn G env (place w state ctx) = walk G env (place w state ctx) w.node >>=
      fun done => pure (.next (Loop.after done.1 done.2)) := by
    rw [turn_walking hfound (by simp [w.steady.1])]
    simp only [w.steady.2, Bool.false_eq_true, if_false]
  rw [hwalk]
  rcases hw : walk G env (place w state ctx) w.node with ⟨log, e | ⟨ctx', r⟩⟩
  · rw [hw] at hturn
    rw [runLoop_last (.failed hend hlt hturn)]
    exact ⟨rfl, rfl⟩
  · rw [hw] at hturn
    have hstep : (loopMachine G env (place w state ctx)).step (place w state ctx) (log ++ [])
        (Loop.after ctx' r) := ⟨hend, hlt, hturn⟩
    obtain ⟨state', l, m, hc, hr, -⟩ := walk_ok hw
    have hrest := hnext state' ctx' r (congrArg Logged.result hc) (congrArg Logged.result hr)
    rw [runLoop_next hstep, List.append_nil]
    refine ⟨?_, hrest.outcome⟩
    exact congrArg (log ++ ·) hrest.log

/-- A node leaves the counters as they are, and takes one turn. -/
theorem visit_left {w : Worker} {state state' : WorkflowState schema} {ctx ctx' : Ctx}
    (h : (visit w state ctx).result = .ok (state', ctx')) :
    ctx'.loopCounters = ctx.loopCounters ∧ ctx'.turnNumber = ctx.turnNumber + 1 := by
  unfold visit at h
  rcases hc : completeNode w.id w.node state (Loop.enter ⟨.node w.id, state, ctx, false⟩) with
    ⟨log, result⟩
  rw [hc] at h
  simp only at h
  subst h
  obtain ⟨update, mode, nodeLog, hdone⟩ := completeNode_ok hc
  rw [hdone.left]
  exact ⟨rfl, rfl⟩

/-! ## The rounds of a loop -/

/-- Where a loop goes after the round `count`, and the counters it leaves. -/
def asked (w : Worker) (condition : PyDict → Except Raised Bool) (left count : Nat) (d : PyDict)
    (counters : Counters) : Except EngineError (Target × Counters) :=
  let counted : Counters := counters.set (loopId w) count
  match left with
  | 0 => .ok (.END, counted.erase (loopId w))
  | _ + 1 =>
    match condition (d.set loopCountersKey counted.value) with
    | .error e => .error (.raised e)
    | .ok true => .ok (.node w.id, counted)
    | .ok false => .ok (.END, counted.erase (loopId w))

theorem resolve_loop {w : Worker} {condition : PyDict → Except Raised Bool}
    {maxIterations left count : Nat} (hleft : count + left = maxIterations) {counters : Counters}
    (hcount : (counters.get? (loopId w)).getD 0 + 1 = count) (d : PyDict) :
    ConditionalEdge.resolve ⟨w.id, WorkflowGraph.loopCondition w.id condition maxIterations, none⟩
        (d.set loopCountersKey counters.value) counters =
      (asked w condition left count d counters).map (fun done => (.next done.1, done.2)) := by
  unfold loopId at hcount
  unfold ConditionalEdge.resolve WorkflowGraph.loopCondition asked loopId
  simp only [hcount, Dict.set_set]
  rcases left with _ | left
  · have hdone : (maxIterations : Int) ≤ count := by omega
    simp only [hdone, if_true]
    rfl
  · have hmore : ¬ (maxIterations : Int) ≤ count := by omega
    simp only [hmore, if_false]
    rcases condition (d.set loopCountersKey
      (Counters.value (counters.set ("__loop_" ++ w.id) (count : Int)))) with e | _ | _
    · rfl
    · rfl
    · rfl

/-- The way out of a loop is its condition. -/
theorem resolveNext_loop {w : Worker} {condition : PyDict → Except Raised Bool}
    {maxIterations left count : Nat} (hleft : count + left = maxIterations)
    {more : List GraphEdge} (hedges : G.edgesFrom w.id =
      .conditional ⟨w.id, WorkflowGraph.loopCondition w.id condition maxIterations, none⟩ :: more)
    {ctx : Ctx} (hcount : (ctx.loopCounters.get? (loopId w)).getD 0 + 1 = count)
    (state : WorkflowState G.schema) :
    resolveNext G env ctx w.id state.data state = (do
      let (next, counters) ← Logged.ofExcept
        (asked w condition left count state.data ctx.loopCounters)
      pure ⟨next, state, state.data.set loopCountersKey counters.value, counters⟩) := by
  unfold resolveNext
  simp only [hedges, resolve_loop hleft hcount]
  rcases asked w condition left count state.data ctx.loopCounters with e | ⟨next, counters⟩
  · rfl
  · rfl

/-- A run at a loop tells its rounds. -/
theorem tells_rounds {w : Worker} (hfound : G.nodes.get? w.id = some w.node)
    {condition : PyDict → Except Raised Bool} {maxIterations : Nat} {more : List GraphEdge}
    (hedges : G.edgesFrom w.id =
      .conditional ⟨w.id, WorkflowGraph.loopCondition w.id condition maxIterations, none⟩ :: more)
    {left count : Nat} (hleft : count + left = maxIterations) {state : WorkflowState G.schema}
    {ctx : Ctx} (hcount : (ctx.loopCounters.get? (loopId w)).getD 0 + 1 = count)
    (hlt : ctx.turnNumber + left < G.maxTurns) :
    Tells (runLoop G env (place w state ctx)) (rounds w condition left count state ctx) := by
  induction left generalizing count state ctx with
  | zero =>
    have hrounds : rounds w condition 0 count state ctx = (do
        let (state', ctx') ← visit w state ctx
        let r ← resolveNext G env ctx' w.id state'.data state'
        pure (r.state, { ctx' with loopCounters := r.loopCounters })) := by
      refine Logged.bind_congr_result ?_
      rintro ⟨state', ctx'⟩ hvisit
      obtain ⟨hcounters, -⟩ := visit_left hvisit
      rw [← hcounters] at hcount
      simp only [resolveNext_loop hleft hedges hcount]
      rfl
    rw [hrounds]
    refine tells_turn (f := fun ctx' r => pure (r.state, { ctx' with
      loopCounters := r.loopCounters })) hfound (by omega) ?_
    intro state' ctx' r hvisit hr
    obtain ⟨hcounters, -⟩ := visit_left hvisit
    rw [resolveNext_loop hleft hedges (hcounters ▸ hcount)] at hr
    cases hr
    rw [runLoop_last (.done rfl)]
    exact ⟨rfl, rfl⟩
  | succ left ih =>
    have hrounds : rounds w condition (left + 1) count state ctx = (do
        let (state', ctx') ← visit w state ctx
        let r ← resolveNext G env ctx' w.id state'.data state'
        if r.next = .END then pure (r.state, { ctx' with loopCounters := r.loopCounters })
        else rounds w condition left (count + 1) r.state { ctx' with
          loopCounters := r.loopCounters }) := by
      refine Logged.bind_congr_result ?_
      rintro ⟨state', ctx'⟩ hvisit
      obtain ⟨hcounters, -⟩ := visit_left hvisit
      rw [← hcounters] at hcount
      simp only [resolveNext_loop hleft hedges hcount, asked]
      rcases condition (state'.data.set loopCountersKey
        (Counters.value (ctx'.loopCounters.set (loopId w) (count : Int)))) with e | _ | _
      · rfl
      · rfl
      · rfl
    rw [hrounds]
    refine tells_turn (f := fun ctx' r =>
      if r.next = .END then pure (r.state, { ctx' with loopCounters := r.loopCounters })
      else rounds w condition left (count + 1) r.state { ctx' with
        loopCounters := r.loopCounters }) hfound (by omega) ?_
    intro state' ctx' r hvisit hr
    obtain ⟨hcounters, hturns⟩ := visit_left hvisit
    rw [resolveNext_loop hleft hedges (hcounters ▸ hcount)] at hr
    unfold asked at hr
    rcases hc : condition (state'.data.set loopCountersKey
      (Counters.value (ctx'.loopCounters.set (loopId w) (count : Int)))) with e | _ | _
    · simp only [hc] at hr
      cases hr
    · simp only [hc] at hr
      cases hr
      rw [runLoop_last (.done rfl)]
      exact ⟨rfl, rfl⟩
    · simp only [hc] at hr
      cases hr
      refine ih (by omega) ?_ ?_
      · simp
      · show ctx'.turnNumber + left < G.maxTurns
        omega

/-! ## From step to step -/

theorem lookupNodes_workers {ws : List Worker}
    (h : ∀ w ∈ ws, G.nodes.get? w.id = some w.node) :
    lookupNodes G (ws.map (fun w => .node w.id)) = .ok (ws.map (fun w => (w.id, w.node))) := by
  induction ws with
  | nil => rfl
  | cons w rest ih =>
    have hrest := ih (fun v hv => h v (List.mem_cons_of_mem _ hv))
    simp only [List.map_cons, lookupNodes, h w List.mem_cons_self, hrest]

/-- From a step on: over the branches of the next step to its main node, or to the end. -/
def onward (env : Env) (rest : List Step) (state : WorkflowState schema) (ctx : Ctx) :
    Eng (Resolution schema) :=
  match rest with
  | [] => pure ⟨.END, state, state.data, ctx.loopCounters⟩
  | t :: _ => do
    let state' ← spread env t state ctx
    pure ⟨.node t.main.id, state', state.data, ctx.loopCounters⟩

/-- A step that is no loop goes on to the next one. -/
theorem resolveNext_exit {steps pre rest : List Step} {s : Step} (hlayout : Layout steps G)
    (hsteps : steps = pre ++ s :: rest) (hloop : s.isLoop = false) (ctx : Ctx)
    (state : WorkflowState G.schema) :
    resolveNext G env ctx s.main.id state.data state = onward env rest state ctx := by
  have hedges := hlayout.exits pre s rest hsteps
  unfold Step.exits at hedges
  rw [ownEdges_eq_nil_iff.mpr hloop, List.nil_append] at hedges
  unfold resolveNext onward
  rcases rest with _ | ⟨t, later⟩
  · simp only [hloop, Bool.false_eq_true, if_false] at hedges
    simp only [hedges]
  · cases t with
    | parallel branches join =>
      have hmem : ∀ b ∈ branches, G.nodes.get? b.id = some b.node := by
        intro b hb
        apply hlayout.nodes
        rw [hsteps]
        refine List.mem_flatMap.mpr ⟨.parallel branches join, by simp, ?_⟩
        exact List.mem_append_left _ hb
      have hfan : executeParallel G env ctx ⟨s.main.id, branches.map (fun b => .node b.id),
          some (.node join.id)⟩ state.data state =
          spread env (.parallel branches join) state ctx := by
        unfold executeParallel
        simp only [lookupNodes_workers hmem, spread]
        show fanOut env ctx parallelFailure (List.map _ (List.map _ branches)) state = _
        rw [List.map_map]
        rfl
      simp only [hedges, Step.edgeFrom, hfan]
      rfl
    | _ =>
      simp only [hedges, Step.edgeFrom]
      rfl

/-- The steps that a run comes to: those up to the first loop. -/
def reached : List Step → List Step
  | [] => []
  | s :: rest => s :: if s.isLoop then [] else reached rest

/-- The turns that a chain needs at most. -/
def turnsOf (steps : List Step) : Nat := (steps.map Step.turns).sum

theorem work_of_single {s : Step} (h : s.isLoop = false) (state : WorkflowState schema)
    (ctx : Ctx) : work s state ctx = visit s.main state ctx := by
  cases s with
  | loop w condition maxIterations positive => cases h
  | _ => rfl

/-- What a run does at the main node of a step, and after it. -/
def fromMain (env : Env) (s : Step) (rest : List Step) (state : WorkflowState schema)
    (ctx : Ctx) : Eng (WorkflowState schema × Ctx) := do
  let (state', ctx') ← work s state ctx
  execChain env rest state' ctx'

theorem main_mem_workers {steps pre rest : List Step} {s : Step}
    (hsteps : steps = pre ++ s :: rest) : s.main ∈ workersOf steps := by
  rw [hsteps]
  refine List.mem_flatMap.mpr ⟨s, by simp, ?_⟩
  exact List.mem_append_right _ List.mem_cons_self

/-- A run at a loop tells the loop, and ends with it. -/
theorem tells_loop {steps pre rest : List Step} {s : Step} (hlayout : Layout steps G)
    (hsteps : steps = pre ++ s :: rest) (hloop : s.isLoop = true)
    {state : WorkflowState G.schema} {ctx : Ctx} (hcounters : ctx.loopCounters = .empty)
    (hturns : ctx.turnNumber + s.turns ≤ G.maxTurns) :
    Tells (runLoop G env (place s.main state ctx)) (fromMain env s [] state ctx) := by
  have hedges := hlayout.exits pre s rest hsteps
  have hfound := hlayout.nodes s.main (main_mem_workers hsteps)
  cases s with
  | loop w condition maxIterations positive =>
    have hwork : fromMain env (.loop w condition maxIterations positive) [] state ctx =
        rounds w condition (maxIterations - 1) 1 state ctx := bind_pure _
    rw [hwork]
    refine tells_rounds hfound hedges (by omega) ?_ ?_
    · rw [hcounters]
      rfl
    · simp only [Step.turns] at hturns
      omega
  | _ => cases hloop

/-- What follows the way out of a step. -/
def afterExit (env : Env) (rest : List Step) (ctx : Ctx) (r : Resolution schema) :
    Eng (WorkflowState schema × Ctx) :=
  match rest with
  | [] => pure (r.state, ctx)
  | t :: later => fromMain env t (if t.isLoop then [] else reached later) r.state ctx

theorem onward_afterExit (rest : List Step) (state : WorkflowState schema) (ctx : Ctx) :
    (do
      let r ← onward env rest state ctx
      afterExit env rest ctx r) = execChain env (reached rest) state ctx := by
  cases rest with
  | nil => rfl
  | cons t later =>
    simp only [onward, afterExit, reached, execChain, bind_assoc, pure_bind]
    rfl

/-- A run at a step that is no loop makes one turn, and goes on at the next step. -/
theorem tells_step {steps pre rest : List Step} {s : Step} (hlayout : Layout steps G)
    (hsteps : steps = pre ++ s :: rest) (hloop : s.isLoop = false)
    {state : WorkflowState G.schema} {ctx : Ctx} (hlt : ctx.turnNumber < G.maxTurns)
    (hnext : ∀ t later state' ctx', rest = t :: later → ctx'.loopCounters = ctx.loopCounters →
      ctx'.turnNumber = ctx.turnNumber + 1 → Tells (runLoop G env (place t.main state' ctx'))
        (fromMain env t (if t.isLoop then [] else reached later) state' ctx')) :
    Tells (runLoop G env (place s.main state ctx))
      (fromMain env s (reached rest) state ctx) := by
  have hfound := hlayout.nodes s.main (main_mem_workers hsteps)
  have hwork : fromMain env s (reached rest) state ctx = (do
      let (state', ctx') ← visit s.main state ctx
      let r ← resolveNext G env ctx' s.main.id state'.data state'
      afterExit env rest ctx' r) := by
    unfold fromMain
    rw [work_of_single hloop]
    refine Logged.bind_congr_result ?_
    rintro ⟨state', ctx'⟩ -
    simp only [resolveNext_exit hlayout hsteps hloop]
    exact (onward_afterExit rest state' ctx').symm
  rw [hwork]
  refine tells_turn (f := afterExit env rest) hfound hlt ?_
  intro state' ctx' r hvisit hr
  obtain ⟨hcounters, hturns⟩ := visit_left hvisit
  rw [resolveNext_exit hlayout hsteps hloop] at hr
  rcases rest with _ | ⟨t, later⟩
  · cases hr
    rw [runLoop_last (.done rfl)]
    exact ⟨rfl, rfl⟩
  · simp only [onward] at hr
    rcases hspread : (spread env t state' ctx').result with e | state''
    · rw [Logged.bind_error _ hspread] at hr
      cases hr
    · rw [Logged.bind_ok _ hspread] at hr
      cases hr
      exact hnext t later state'' ctx' rfl hcounters hturns

theorem turnsOf_reached (s : Step) (rest : List Step) :
    turnsOf (reached (s :: rest)) =
      s.turns + turnsOf (if s.isLoop then [] else reached rest) := by
  simp [reached, turnsOf]

theorem turns_of_single {s : Step} (h : s.isLoop = false) : s.turns = 1 := by
  cases s with
  | loop w condition maxIterations positive => cases h
  | _ => rfl

/-- A run at a step tells the rest of the chain, up to the first loop. -/
theorem tells_fromMain {steps pre rest : List Step} {s : Step} (hlayout : Layout steps G)
    (hsteps : steps = pre ++ s :: rest) {state : WorkflowState G.schema} {ctx : Ctx}
    (hcounters : ctx.loopCounters = .empty)
    (hturns : ctx.turnNumber + turnsOf (reached (s :: rest)) ≤ G.maxTurns) :
    Tells (runLoop G env (place s.main state ctx))
      (fromMain env s (if s.isLoop then [] else reached rest) state ctx) := by
  rw [turnsOf_reached] at hturns
  induction rest generalizing pre s state ctx with
  | nil =>
    rcases hloop : s.isLoop with _ | _
    · have hone := turns_of_single hloop
      refine tells_step hlayout hsteps hloop (by omega) ?_
      intro t later state' ctx' heq
      cases heq
    · exact tells_loop hlayout hsteps hloop hcounters (by omega)
  | cons t later ih =>
    rcases hloop : s.isLoop with _ | _
    · have hone := turns_of_single hloop
      rw [hloop] at hturns
      simp only [Bool.false_eq_true, if_false, turnsOf_reached] at hturns
      refine tells_step hlayout hsteps hloop (by omega) ?_
      intro t' later' state' ctx' heq hsame hcount
      cases heq
      have hlater : steps = (pre ++ [s]) ++ t :: later := by rw [hsteps, List.append_assoc]; rfl
      exact ih hlater (hsame.trans hcounters) (by omega)
    · exact tells_loop hlayout hsteps hloop hcounters (by omega)

/-! ## The start of a run -/

/-- A call `run(initial_state)` with a new context. -/
structure Plain (input : RunInput) : Prop where
  noStart : input.startAt = none
  firstTurn : input.context.turnNumber = 0
  noCounters : input.context.loopCounters = .empty

theorem fanOut_nil (ctx : Ctx) (f : List EngineError → EngineError)
    (state : WorkflowState schema) : fanOut env ctx f [] state = pure state := by
  have hlog : env.gather [] = [] := List.perm_nil.mp (env.gather_perm [])
  have hmerge : state.merge [] = .ok state := by
    cases schema with
    | none => rfl
    | some S => rfl
  unfold fanOut
  simp only [runBranches, List.mapIdx_nil, List.filterMap_nil, List.map_nil, hlog, hmerge]
  rfl

theorem spread_nothing {s : Step} (h : s.branches = []) (state : WorkflowState schema)
    (ctx : Ctx) : spread env s state ctx = pure state := by
  cases s with
  | parallel branches join =>
    obtain rfl : branches = [] := h
    exact fanOut_nil ctx parallelFailure state
  | _ => rfl

theorem start_of_entry {input : RunInput} (hplain : Plain input) {w : Worker}
    (hentry : G.entryPoint = w.id) (state : WorkflowState G.schema) :
    runStart G input state = place w state (runStart G input state).ctx := by
  unfold runStart RunInput.start place
  rw [hplain.noStart, hentry]

/-- A run of a chain that does not start with a fan-out tells the chain up to the first
loop. -/
theorem tells_start (env : Env) {s : Step} {rest : List Step} (hlayout : Layout (s :: rest) G)
    (hentered : s.branches = []) {input : RunInput} (hplain : Plain input)
    (hturns : turnsOf (reached (s :: rest)) ≤ G.maxTurns) (state : WorkflowState G.schema) :
    Tells (runLoop G env (runStart G input state))
      (execChain env (reached (s :: rest)) state (runStart G input state).ctx) := by
  have hentry : G.entryPoint = s.main.id := by
    rw [hlayout.entry]
    simp [idsOf, workersOf, Step.workers, hentered]
  have hexec : execChain env (reached (s :: rest)) state (runStart G input state).ctx =
      fromMain env s (if s.isLoop then [] else reached rest) state
        (runStart G input state).ctx := by
    simp only [reached, execChain, spread_nothing hentered, pure_bind]
    rfl
  have hfirst : (runStart G input state).ctx.turnNumber = 0 := hplain.firstTurn
  have hsteps : s :: rest = [] ++ s :: rest := rfl
  rw [hexec, start_of_entry hplain hentry]
  exact tells_fromMain hlayout hsteps hplain.noCounters (by omega)

theorem log_visit (w : Worker) (state : WorkflowState schema) (ctx : Ctx) :
    ∃ more, (visit w state ctx).log = .emit ⟨.nodeStarted w.id w.node.typeName, true⟩ :: more := by
  unfold visit completeNode emit
  rw [Logged.note_bind]
  exact ⟨_, rfl⟩

/-- A run of a chain that starts with a fan-out calls the first branch, and ends. -/
theorem tells_first_branch (env : Env) {b : Worker} {others : List Worker} {join : Worker}
    {rest : List Step} (hlayout : Layout (.parallel (b :: others) join :: rest) G)
    {input : RunInput} (hplain : Plain input) (hlt : 0 < G.maxTurns)
    (state : WorkflowState G.schema) :
    Tells (runLoop G env (runStart G input state))
      (visit b state (runStart G input state).ctx) := by
  have hb : b ∈ workersOf (.parallel (b :: others) join :: rest) := by
    simp [workersOf, Step.workers, Step.branches]
  have hentry : G.entryPoint = b.id := by
    rw [hlayout.entry]
    simp [idsOf, workersOf, Step.workers, Step.branches]
  have hleaf : G.edgesFrom b.id = [] :=
    hlayout.leaves b.id (by simp [branchIds, Step.branches])
  have hway : ∀ (ctx : Ctx) (state : WorkflowState G.schema),
      resolveNext G env ctx b.id state.data state =
        pure ⟨.END, state, state.data, ctx.loopCounters⟩ := by
    intro ctx state
    unfold resolveNext
    simp only [hleaf, hlayout.handoffs]
    rfl
  have hvisit : visit b state (runStart G input state).ctx = (do
      let (state', ctx') ← visit b state (runStart G input state).ctx
      let r ← resolveNext G env ctx' b.id state'.data state'
      pure (r.state, ctx')) := by
    simp only [hway, pure_bind]
    exact (bind_pure _).symm
  have hfirst : (runStart G input state).ctx.turnNumber = 0 := hplain.firstTurn
  rw [start_of_entry hplain hentry]
  show Tells _ (visit b state (runStart G input state).ctx)
  rw [hvisit]
  refine tells_turn (f := fun ctx' r => pure (r.state, ctx')) (hlayout.nodes b hb) (by omega) ?_
  intro state' ctx' r _ hr
  rw [hway] at hr
  cases hr
  rw [runLoop_last (.done rfl)]
  exact ⟨rfl, rfl⟩

/-! ## What the chain says, and the run does not do -/

theorem log_spread (env : Env) {s : Step} (h : s.branches ≠ []) (state : WorkflowState schema)
    (ctx : Ctx) : ∃ n more, (spread env s state ctx).log = n :: more ∧ Quiet n := by
  cases s with
  | parallel branches join =>
    have hquiet : Logged.Meets Quiet (fun _ => True) InGraph
        (spread env (.parallel branches join) state ctx) := quiet_fanOut (fun _ => rfl)
    have hcalls : (ranNodes (spread env (.parallel branches join) state ctx).log).Perm _ :=
      ranNodes_fanOut ctx parallelFailure _ state
    rw [ids_branchVisits] at hcalls
    rcases hlog : (spread env (.parallel branches join) state ctx).log with _ | ⟨n, more⟩
    · rw [hlog] at hcalls
      have hnone := List.nil_perm.mp hcalls
      rw [List.map_eq_nil_iff, List.map_eq_nil_iff] at hnone
      exact absurd hnone h
    · exact ⟨n, more, rfl, hquiet.notes n (hlog ▸ List.mem_cons_self)⟩
  | _ => exact absurd rfl h

theorem log_work (s : Step) (state : WorkflowState schema) (ctx : Ctx) :
    ∃ n more, (work s state ctx).log = n :: more := by
  obtain ⟨more, hvisit⟩ := log_visit s.main state ctx
  cases s with
  | single w => exact ⟨_, more, hvisit⟩
  | parallel branches join => exact ⟨_, more, hvisit⟩
  | loop w condition maxIterations positive =>
    simp only [work]
    rcases maxIterations - 1 with _ | left
    · exact ⟨_, Logged.log_bind_cons hvisit _⟩
    · exact ⟨_, Logged.log_bind_cons hvisit _⟩

/-- A chain that has a step left writes something. -/
theorem log_execChain (env : Env) {steps : List Step} (h : steps ≠ [])
    (state : WorkflowState schema) (ctx : Ctx) :
    ∃ n more, (execChain env steps state ctx).log = n :: more := by
  cases steps with
  | nil => exact absurd rfl h
  | cons s rest =>
    unfold execChain
    by_cases hs : s.branches = []
    · rw [spread_nothing hs, pure_bind]
      obtain ⟨n, more, hwork⟩ := log_work s state ctx
      exact ⟨n, Logged.log_bind_cons hwork _⟩
    · obtain ⟨n, more, hspread, -⟩ := log_spread env hs state ctx
      exact ⟨n, Logged.log_bind_cons hspread _⟩

theorem execChain_append (pre rest : List Step) (state : WorkflowState schema) (ctx : Ctx) :
    execChain env (pre ++ rest) state ctx = (do
      let (state', ctx') ← execChain env pre state ctx
      execChain env rest state' ctx') := by
  induction pre generalizing state ctx with
  | nil => rfl
  | cons s pre ih =>
    simp only [List.cons_append, execChain, bind_assoc, ih]

/-- The chain goes on after its first loop, where that is not the last step. -/
theorem reached_prefix (steps : List Step) :
    ∃ rest, steps = reached steps ++ rest ∧
      (rest = [] ↔ ∀ s ∈ steps.dropLast, s.isLoop = false) := by
  induction steps with
  | nil => exact ⟨[], rfl, by simp⟩
  | cons s later ih =>
    obtain ⟨rest, heq, hrest⟩ := ih
    rcases hloop : s.isLoop with _ | _
    · refine ⟨rest, ?_, ?_⟩
      · simpa [reached, hloop] using heq
      · rw [hrest]
        cases later with
        | nil => simp
        | cons t more => simp [hloop]
    · refine ⟨later, by simp [reached, hloop], ?_⟩
      cases later with
      | nil => simp
      | cons t more => simp [hloop]

theorem turnsOf_append (pre rest : List Step) :
    turnsOf (pre ++ rest) = turnsOf pre + turnsOf rest := by
  simp [turnsOf]

/-- Where the chain goes on after `pre`, it says more than `pre` does, unless that fails. -/
theorem execChain_longer_iff (env : Env) (pre rest : List Step) (state : WorkflowState schema)
    (ctx : Ctx) :
    (execChain env pre state ctx).log = (execChain env (pre ++ rest) state ctx).log ↔
      rest = [] ∨ ∃ e, (execChain env pre state ctx).result = .error e := by
  rw [execChain_append]
  rcases hpre : (execChain env pre state ctx).result with e | ⟨state', ctx'⟩
  · rw [Logged.bind_error _ hpre]
    simp
  · rw [Logged.bind_ok _ hpre]
    constructor
    · intro hlog
      left
      by_contra hrest
      obtain ⟨n, more, hmore⟩ := log_execChain env hrest state' ctx'
      simp [hmore] at hlog
    · rintro (rfl | ⟨e, he⟩)
      · exact (List.append_nil _).symm
      · cases he

/-- A chain that fails early says no more than its first steps. -/
theorem execChain_of_error {pre : List Step} (rest : List Step) {state : WorkflowState schema}
    {ctx : Ctx}
    {e : EngineError} (h : (execChain env pre state ctx).result = .error e) :
    execChain env (pre ++ rest) state ctx = execChain env pre state ctx := by
  rw [execChain_append, Logged.bind_error _ h]
  exact Logged.ext rfl h.symm

/-- No run that starts at a branch tells a chain that starts with a fan-out. -/
theorem visit_ne_execChain {s : Step} (hs : s.branches ≠ []) (rest : List Step) (w : Worker)
    (state : WorkflowState schema) (ctx : Ctx) :
    (visit w state ctx).log ≠ (execChain env (s :: rest) state ctx).log := by
  obtain ⟨more, hvisit⟩ := log_visit w state ctx
  obtain ⟨n, others, hspread, hquiet⟩ := log_spread env hs state ctx
  obtain ⟨all, hexec⟩ := Logged.log_bind_cons hspread (fun state => do
    let (state', ctx') ← work s state ctx
    execChain env rest state' ctx')
  intro heq
  rw [hvisit] at heq
  have hheads := heq.trans hexec
  rw [List.cons.injEq] at hheads
  rw [← hheads.1] at hquiet
  exact hquiet

/-- The run of a chain follows it exactly when it does not start with a fan-out and only the
last step is a loop, or when the chain fails no later than in its first loop. -/
theorem chain_followed_iff {schema : Option Schema} {name : String} {steps : List Step}
    {g : WorkflowGraph} {G : CompiledGraph} {maxTurns : Nat} (hdistinct : (idsOf steps).Nodup)
    (hbuild : build schema name steps = .ok g) (hcompile : g.compile maxTurns = .ok G)
    (hturns : turnsOf steps ≤ maxTurns) {input : RunInput} (hplain : Plain input)
    (env : Env) (state : WorkflowState G.schema) :
    Tells (runLoop G env (runStart G input state))
        (execChain env steps state (runStart G input state).ctx) ↔
      (∀ s ∈ steps.head?, s.branches = []) ∧
        ((∀ s ∈ steps.dropLast, s.isLoop = false) ∨
          ∃ e, (execChain env (reached steps) state (runStart G input state).ctx).result =
            .error e) := by
  obtain ⟨hlayout, hmax⟩ := layout_of_build hdistinct hbuild hcompile
  rcases steps with _ | ⟨s, later⟩
  · cases hbuild
    cases hcompile
  by_cases hs : s.branches = []
  · obtain ⟨rest, hrest, hlast⟩ := reached_prefix (s :: later)
    have hfewer : turnsOf (reached (s :: later)) ≤ G.maxTurns := by
      have hsum := turnsOf_append (reached (s :: later)) rest
      rw [← hrest] at hsum
      omega
    have htells := tells_start env hlayout hs hplain hfewer state
    have hlonger := execChain_longer_iff env (reached (s :: later)) rest state
      (runStart G input state).ctx
    rw [← hrest] at hlonger
    rw [← hlast, ← hlonger]
    constructor
    · intro hfollows
      refine ⟨?_, htells.log.symm.trans hfollows.log⟩
      rintro t ⟨⟩
      exact hs
    · rintro ⟨-, hlog⟩
      rcases hlonger.mp hlog with rfl | ⟨e, he⟩
      · rw [List.append_nil] at hrest
        rw [hrest]
        exact hrest ▸ htells
      · have hsame := execChain_of_error rest he
        rw [← hrest] at hsame
        rw [hsame]
        exact htells
  · constructor
    · intro hfollows
      exfalso
      cases s with
      | parallel branches join =>
        rcases branches with _ | ⟨b, others⟩
        · exact hs rfl
        · have hpositive : 0 < G.maxTurns := by
            simp [turnsOf, Step.turns] at hturns
            omega
          have htells := tells_first_branch env hlayout hplain hpositive state
          exact visit_ne_execChain hs later b state _ (htells.log.symm.trans hfollows.log)
      | _ => exact hs rfl
    · rintro ⟨hentered, -⟩
      exact absurd (hentered s rfl) hs

/-- What the caller of a run that follows a chain gets, and the nodes that it called. When
the chain ends well they are called in the order of its steps. -/
theorem run_of_tells {steps : List Step} {input : RunInput} {state : WorkflowState G.schema}
    (hstate : WorkflowState.ofDict G.schema input.initialState = .ok state)
    (h : Tells (runLoop G env (runStart G input state))
      (execChain env steps state (runStart G input state).ctx)) :
    (runs.run G env input).outcome =
        outcomeOf (execChain env steps state (runStart G input state).ctx).result ∧
      ∀ done, (execChain env steps state (runStart G input state).ctx).result = .ok done →
        CallsAll steps (ranNodes (runs.run G env input).log) := by
  rw [run_valid G env input hstate]
  refine ⟨?_, ?_⟩
  · rw [outcome_finish]
    exact h.outcome
  · intro done hdone
    rw [ranNodes_finish, h.log]
    exact calls_execChain hdone

/-! ## Three chains -/

def worker (id : String) (f : PyDict → PyDict) : Worker := ⟨id, .function (pureNode id f), rfl, rfl⟩

/-- A worker with nothing to say. -/
def idle (id : String) : Worker := worker id fun _ => .empty

def polish : Step := .loop (idle "polish") (fun _ => .ok true) 2 (by decide)

/-- A plan, two drafts with their merge, and then some polish. -/
def article : List Step :=
  [.single (idle "plan"), .parallel [idle "draft", idle "notes"] (idle "merge"), polish]

theorem an_article_is_written_in_order : ∃ g, build none "" article = .ok g ∧
    ∃ G, g.compile 10 = .ok G ∧ ∃ state : WorkflowState G.schema,
      Tells (runLoop G inOrder (runStart G (plainInput .empty) state))
        (execChain inOrder article state (runStart G (plainInput .empty) state).ctx) := by
  refine ⟨_, rfl, _, rfl, ⟨.empty, ?_⟩, ?_⟩
  · intro S hS
    cases hS
  · have hdistinct : (idsOf article).Nodup := by decide
    have hplain : Plain (plainInput .empty) := ⟨rfl, rfl, rfl⟩
    apply (@chain_followed_iff none "" article _ _ 10 hdistinct rfl rfl (by decide) _ hplain
      inOrder _).mpr
    refine ⟨?_, Or.inl ?_⟩
    · simp [article, Step.branches]
    · simp [article, Step.isLoop]

/-- The same loop, with a step after it. -/
def early : List Step := [.single (idle "plan"), polish, .single (idle "publish")]

/-- What comes after a loop is never executed: the loop ends the run. -/
theorem a_loop_ends_the_run : ∃ g, build none "" early = .ok g ∧
    (idsOf early).Nodup ∧ turnsOf early ≤ 10 ∧ ∃ G, g.compile 10 = .ok G ∧
      ranNodes (runs.run G inOrder (plainInput .empty)).log = ["plan", "polish", "polish"] ∧
      ∃ state : WorkflowState G.schema,
        ¬ Tells (runLoop G inOrder (runStart G (plainInput .empty) state))
          (execChain inOrder early state (runStart G (plainInput .empty) state).ctx) := by
  refine ⟨_, rfl, by decide, by decide, _, rfl, ?_, ⟨.empty, ?_⟩, ?_⟩
  · decide +kernel
  · intro S hS
    cases hS
  · intro htells
    have hcalls : ["plan", "polish", "polish"] = ["plan", "polish", "polish", "publish"] :=
      congrArg ranNodes htells.log
    cases hcalls

end orchestra.chains
