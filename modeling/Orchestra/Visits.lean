-- What the nodes on the main path of a run are given: each node that the loop comes to, with the
-- state that it finds there. For a chain without loops these are its steps.
import Orchestra.Chains

open dicts logged orchestra.state orchestra.events orchestra.nodes orchestra.compiled
open orchestra.turns orchestra.runs orchestra.graph orchestra.fluent orchestra.chains

namespace orchestra.visits

variable {G : CompiledGraph} {env : Env} {schema : Option Schema}

/-- The nodes that the loop comes to, with `left` turns left, and their states. -/
def visitsFrom (G : CompiledGraph) (env : Env) : Nat → Loop G.schema → List (String × PyDict)
  | 0, _ => []
  | left + 1, L =>
    if L.current = .END then []
    else (L.current.text, L.state.data) ::
      match (turn G env L).result with
      | .ok (.next L') => visitsFrom G env left L'
      | _ => []

/-- The nodes that a call of `run` comes to. -/
def visitsOfRun (G : CompiledGraph) (env : Env) (input : RunInput) : List (String × PyDict) :=
  match WorkflowState.ofDict G.schema input.initialState with
  | .ok state => visitsFrom G env (G.maxTurns - input.context.turnNumber) (runStart G input state)
  | .error _ => []

/-- The main nodes of a chain without loops, with their states. -/
def visitsOf (env : Env) : List Step → WorkflowState schema → Ctx → List (String × PyDict)
  | [], _, _ => []
  | s :: rest, state, ctx =>
    match (spread env s state ctx).result with
    | .error _ => []
    | .ok state => (s.main.id, state.data) ::
      match (visit s.main state ctx).result with
      | .error _ => []
      | .ok (state, ctx) => visitsOf env rest state ctx

/-- A turn at a step that is no loop visits its main node, and goes on to the next step. -/
theorem turn_main {steps pre rest : List Step} {s : Step} (hlayout : Layout steps G)
    (hsteps : steps = pre ++ s :: rest) (hloop : s.isLoop = false) (state : WorkflowState G.schema)
    (ctx : Ctx) :
    (turn G env (place s.main state ctx)).result =
      match (visit s.main state ctx).result with
      | .error e => .error e
      | .ok (state', ctx') =>
        (onward env rest state' ctx').result.map (fun r => .next (Loop.after ctx' r)) := by
  have hfound := hlayout.nodes s.main (main_mem_workers hsteps)
  have hsteady := s.main.steady
  rw [turn_walking hfound (by simp [hsteady.1])]
  simp only [hsteady.2, Bool.false_eq_true, if_false]
  unfold walk
  show ((visit s.main state ctx >>= _) >>= _ : Eng (TurnEnd G.schema)).result = _
  rcases hvisit : (visit s.main state ctx).result with e | ⟨state', ctx'⟩
  · rw [Logged.bind_error _ hvisit, Logged.bind_error _ rfl]
  · rw [Logged.bind_ok _ hvisit]
    simp only [place, Target.text, resolveNext_exit hlayout hsteps hloop]
    rcases honward : (onward env rest state' ctx').result with e | r
    · rw [Logged.bind_error (e := e) _ (by rw [Logged.bind_error _ honward])]
      rfl
    · rw [Logged.bind_ok (a := (ctx', r)) _ (by rw [Logged.bind_ok _ honward]; rfl)]
      rfl

theorem visitsFrom_main {steps pre rest : List Step} {s : Step} {left : Nat}
    (hlayout : Layout steps G) (hsteps : steps = pre ++ s :: rest)
    (hloops : ∀ t ∈ steps, t.isLoop = false) (hleft : rest.length ≤ left)
    (state : WorkflowState G.schema) (ctx : Ctx) :
    visitsFrom G env (left + 1) (place s.main state ctx) = (s.main.id, state.data) ::
      match (visit s.main state ctx).result with
      | .error _ => []
      | .ok (state', ctx') => visitsOf env rest state' ctx' := by
  induction rest generalizing pre s state ctx left with
  | nil =>
    have hturn : (turn G env (place s.main state ctx)).result = _ :=
      turn_main hlayout hsteps (hloops s (by simp [hsteps])) state ctx
    unfold visitsFrom
    rw [if_neg (by simp [place]), hturn]
    rcases (visit s.main state ctx).result with e | ⟨state', ctx'⟩
    · rfl
    · cases left <;> rfl
  | cons t later ih =>
    have hturn : (turn G env (place s.main state ctx)).result = _ :=
      turn_main hlayout hsteps (hloops s (by simp [hsteps])) state ctx
    have hlater : steps = (pre ++ [s]) ++ t :: later := by rw [hsteps, List.append_assoc]; rfl
    unfold visitsFrom
    rw [if_neg (by simp [place]), hturn]
    rcases (visit s.main state ctx).result with e | ⟨state', ctx'⟩
    · rfl
    simp only [onward, visitsOf]
    rcases hspread : (spread env t state' ctx').result with e | state''
    · rw [Logged.bind_error _ hspread]
      rfl
    · rw [Logged.bind_ok _ hspread]
      obtain ⟨left, rfl⟩ : ∃ n, left = n + 1 := by
        cases left with
        | zero => simp at hleft
        | succ n => exact ⟨n, rfl⟩
      have hrest := ih hlater (Nat.le_of_succ_le_succ hleft) state'' ctx'
      show _ :: visitsFrom G env (left + 1) (place t.main state'' ctx') = _
      rw [hrest]
      simp only [place, Target.text]
      rcases (visit t.main state'' ctx').result with e | ⟨last, ctx''⟩ <;> rfl

/-- A run of a chain without loops comes to its steps. -/
theorem visits_chain (env : Env) {s : Step} {rest : List Step} (hlayout : Layout (s :: rest) G)
    (hloops : ∀ t ∈ s :: rest, t.isLoop = false) (hentered : s.branches = []) {input : RunInput}
    (hplain : Plain input) (hturns : (s :: rest).length ≤ G.maxTurns)
    {state : WorkflowState G.schema}
    (hstate : WorkflowState.ofDict G.schema input.initialState = .ok state) :
    visitsOfRun G env input = visitsOf env (s :: rest) state (runStart G input state).ctx := by
  have hentry : G.entryPoint = s.main.id := by
    rw [hlayout.entry]
    simp [idsOf, workersOf, Step.workers, hentered]
  have hsteps : s :: rest = [] ++ s :: rest := rfl
  unfold visitsOfRun
  rw [hstate, hplain.firstTurn, Nat.sub_zero]
  obtain ⟨left, hleft⟩ : ∃ n, G.maxTurns = n + 1 := by
    cases hmax : G.maxTurns with
    | zero => simp [hmax] at hturns
    | succ n => exact ⟨n, rfl⟩
  rw [hleft] at hturns ⊢
  have hfirst : visitsFrom G env (left + 1) (place s.main state (runStart G input state).ctx) = _ :=
    visitsFrom_main hlayout hsteps hloops (Nat.le_of_succ_le_succ hturns) state
      (runStart G input state).ctx
  rw [← start_of_entry hplain hentry] at hfirst
  simp only [hfirst, visitsOf, spread_nothing hentered, Logged.result_pure]
  rcases (visit s.main state (runStart G input state).ctx).result with e | ⟨last, ctx⟩ <;> rfl

end orchestra.visits
