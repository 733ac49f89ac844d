-- The law of interrupt and resume: a run that pauses and goes on does what the
-- run without flags does. A checkpoint does not hold all that the loop carries
-- (the turns, the restricted mode, the state that the way out returns), so the
-- law holds where nothing of that is lost.
import Orchestra.Sessions
import Orchestra.Twins

open dicts logged machine orchestra.state orchestra.edges orchestra.events orchestra.nodes
open orchestra.compiled orchestra.turns orchestra.runs orchestra.sessions orchestra.twins

namespace orchestra.pauses

variable {G : CompiledGraph} {env env' : Env}

/-! ## The graph without flags -/

/-- The same graph with all interrupt flags cleared. -/
@[reducible] def cleared (G : CompiledGraph) : CompiledGraph :=
  withNodes G (G.nodes.mapValues (fun _ n => n.clearFlags))

theorem get?_cleared (G : CompiledGraph) (nodeId : String) :
    (cleared G).nodes.get? nodeId = (G.nodes.get? nodeId).map (·.clearFlags) :=
  Dict.get?_mapValues _ _ _

theorem twins_cleared (h : Deterministic G) : Twins G.schema G.nodes (cleared G).nodes := by
  refine ⟨(Dict.keys_mapValues _ _).symm, ?_⟩
  intro nodeId n m hn hm state c d hcd
  rw [get?_cleared, hn] at hm
  obtain rfl := Option.some.inj hm
  rw [executeNode_clearFlags]
  exact h nodeId n hn state c d hcd

/-- Without flags a turn is a walk. -/
theorem turn_cleared {M : Loop G.schema} {node : GraphNode}
    (hn : G.nodes.get? M.current.text = some node) :
    turn (cleared G) env M = (do
      let (ctx, r) ← walk (cleared G) env M node.clearFlags
      pure (.next (Loop.after ctx r))) := by
  have hm : (cleared G).nodes.get? M.current.text = some node.clearFlags := by
    rw [get?_cleared, hn]
    rfl
  have hb : (node.clearFlags.interruptBefore && !M.bypass) = false := by simp
  rw [turn_walking hm hb]
  simp only [GraphNode.interruptAfter_clearFlags, Bool.false_eq_true, if_false]

/-! ## What a checkpoint keeps -/

/-- The way out of the node leads to a node. On an untyped graph it does not
ask a condition, which would leave the loop counters in the state. -/
def GoesOn (G : CompiledGraph) (ctx : Ctx) (nodeId : String) (stateDict : PyDict) : Prop :=
  match G.edgesFrom nodeId with
  | .plain _ target :: _ => target ≠ .END
  | .conditional e :: _ => G.schema ≠ none ∧ ∀ r counters,
    e.resolve (stateDict.set loopCountersKey ctx.loopCounters.value) ctx.loopCounters =
      .ok (r, counters) → ∃ id, r = .next (.node id)
  | .parallel e :: _ => ∃ id, e.joinNode = some (.node id)
  | [] => pickHandoff nodeId stateDict G.handoffEdges ≠ .ok none

/-- What a pause after a node saves: the next node and the state, as they are. -/
theorem resolveNext_goesOn {ctx : Ctx} {nodeId : String} {state : WorkflowState G.schema}
    {log : List Note} {r : Resolution G.schema} (h : GoesOn G ctx nodeId state.data)
    (hr : resolveNext G env ctx nodeId state.data state = ⟨log, .ok r⟩) :
    (∃ id, r.next = .node id) ∧ WorkflowState.ofDict G.schema r.stateDict = .ok state := by
  unfold resolveNext at hr
  unfold GoesOn at h
  split at hr <;> rename_i heq <;> simp only [heq] at h
  · rename_i target rest
    cases hr
    refine ⟨?_, WorkflowState.ofDict_data state⟩
    cases target with
    | END => exact absurd rfl h
    | node id => exact ⟨id, rfl⟩
  · obtain ⟨l, ⟨result, counters⟩, m, hres, hrest, -⟩ := Logged.of_bind_ok hr
    obtain ⟨id, rfl⟩ := h.2 result counters (congrArg Logged.result hres)
    cases hrest
    exact ⟨⟨id, rfl⟩,
      (WorkflowState.ofDict_counters h.1 _ _).trans (WorkflowState.ofDict_data state)⟩
  · obtain ⟨id, hid⟩ := h
    obtain ⟨l, s, m, -, hdone, -⟩ := Logged.of_bind_ok hr
    cases hdone
    refine ⟨⟨id, ?_⟩, WorkflowState.ofDict_data state⟩
    rw [hid]
    rfl
  · obtain ⟨l, picked, m, hpick, hrest, -⟩ := Logged.of_bind_ok hr
    cases picked with
    | none =>
      rcases hp : pickHandoff nodeId state.data G.handoffEdges with error | picked
      · rw [hp] at hpick
        cases hpick
      · rw [hp] at hpick
        cases hpick
        exact absurd hp h
    | some e =>
      obtain ⟨l', s, m', -, hdone, -⟩ := Logged.of_bind_ok hrest
      cases hdone
      exact ⟨⟨e.target, rfl⟩, WorkflowState.ofDict_data state⟩

/-- Nothing of the turn at `L` would be lost by a pause in it: the turns that
are left do not come from a resume, no restricted mode is on, and the way out
of a node that pauses leads to a node and leaves the state as it is. -/
structure TurnClear (G : CompiledGraph) (L : Loop G.schema) : Prop where
  counted : L.current ≠ .END → L.ctx.turnNumber < G.maxTurns →
    L.ctx.nodeExecutionOrder.length < G.maxTurns
  before : ∀ node, G.nodes.get? L.current.text = some node → node.interruptBefore = true →
    L.bypass = false → L.ctx.restrictedMode = false
  after : ∀ node log state ctx, G.nodes.get? L.current.text = some node →
    node.interruptAfter = true →
    completeNode L.current.text node L.state L.enter = ⟨log, .ok (state, ctx)⟩ →
    ctx.restrictedMode = false ∧ ExitKeeps G ctx L.current.text state ∧
      GoesOn G ctx L.current.text state.data

/-- Every turn that a run of the loop comes to is clear. -/
def LoopClear (G : CompiledGraph) (env : Env) (L : Loop G.schema) : Prop :=
  ∀ logs L', Run (loopMachine G env L) L logs L' → TurnClear G L'

/-! ## The loop and its shadow -/

/-- `M` is where the graph without flags is when the graph is at `L`. Only the
turns since the last resume are counted at `L`. -/
structure Shadow (L M : Loop G.schema) : Prop where
  inStep : InStep L M
  order : L.ctx.nodeExecutionOrder = M.ctx.nodeExecutionOrder
  counted : M.ctx.turnNumber = M.ctx.nodeExecutionOrder.length
  turns : L.ctx.turnNumber ≤ M.ctx.turnNumber
  plain : M.ctx.config = .empty ∧ M.ctx.replayEvents = [] ∧ M.ctx.hasBus = true

section

variable (hG : Deterministic G) (henv : Env.StartsInOrder env) (henv' : Env.StartsInOrder env')

include hG henv henv'

theorem looksLike_cleared {L M : Loop G.schema} (h : InStep L M) {node : GraphNode}
    (hn : G.nodes.get? L.current.text = some node) :
    LooksLike (fun x y => x.2 = y.2 ∧ SameMode x.1 y.1) (walk G env L node)
      (walk (cleared G) env' M node.clearFlags) := by
  refine looksLike_walk (twins_cleared hG) henv henv' h ?_
  intro state c d hcd
  rw [executeNode_clearFlags]
  exact hG _ node hn state c d hcd

/-- A walk of the graph is a turn of the graph without flags. -/
theorem shadow_walk {L M : Loop G.schema} (h : Shadow L M) {node : GraphNode} {log : List Note}
    {ctx : Ctx} {r : Resolution G.schema} (hn : G.nodes.get? L.current.text = some node)
    (hw : walk G env L node = ⟨log, .ok (ctx, r)⟩) :
    ∃ log' ctx', turn (cleared G) env' M = ⟨log', .ok (.next (Loop.after ctx' r))⟩ ∧
      ranNodes log' = ranNodes log ∧ Shadow (Loop.after ctx r) (Loop.after ctx' r) := by
  have halike := looksLike_cleared hG henv henv' h.inStep hn
  obtain ⟨⟨ctx', r'⟩, hresult, hr, hmode⟩ := Logged.agree_ok halike.result (a := (ctx, r))
    (by rw [hw])
  obtain rfl : r = r' := hr
  rcases hw' : walk (cleared G) env' M node.clearFlags with ⟨log', result⟩
  rw [hw'] at hresult
  obtain rfl : result = .ok (ctx', r) := hresult
  have hlog := halike.log
  rw [hw, hw'] at hlog
  have hnM : G.nodes.get? M.current.text = some node := by rwa [← h.inStep.current]
  refine ⟨log', ctx', ?_, hlog.symm, ?_⟩
  · rw [turn_cleared hnM, hw', Logged.bind_ok _ rfl]
    exact Logged.ext (List.append_nil _) rfl
  · obtain ⟨mode, rfl⟩ := walk_left hw
    obtain ⟨mode', rfl⟩ := walk_left hw'
    have hturns := h.turns
    have hcounted := h.counted
    refine ⟨inStep_after (x := (_, r)) (y := (_, r)) ⟨rfl, hmode⟩, ?_, ?_, ?_, h.plain⟩
    · show L.ctx.nodeExecutionOrder ++ [L.current.text] =
        M.ctx.nodeExecutionOrder ++ [M.current.text]
      rw [h.order, h.inStep.current]
    · show M.ctx.turnNumber + 1 = (M.ctx.nodeExecutionOrder ++ [M.current.text]).length
      rw [List.length_append, hcounted]
      rfl
    · show L.ctx.turnNumber + 1 ≤ M.ctx.turnNumber + 1
      omega

/-- A turn that fails fails without flags too. -/
theorem shadow_failed {L M : Loop G.schema} (h : Shadow L M) {log : List Note} {e : EngineError}
    (ht : turn G env L = ⟨log, .error e⟩) :
    ∃ log', turn (cleared G) env' M = ⟨log', .error e⟩ ∧ ranNodes log' = ranNodes log := by
  rcases turn_failed ht with ⟨hn, rfl, rfl⟩ | ⟨node, hn, -, hw⟩
  · have hm : (cleared G).nodes.get? M.current.text = none := by
      rw [get?_cleared, ← h.inStep.current, hn]
      rfl
    refine ⟨[], ?_, rfl⟩
    rw [turn_unknown hm, ← h.inStep.current, ← (twins_cleared hG).keys]
    rfl
  · have halike := looksLike_cleared hG henv henv' h.inStep hn
    have hresult := Logged.agree_error halike.result (e := e) (by rw [hw])
    have hlog := halike.log
    have hnM : G.nodes.get? M.current.text = some node := by rwa [← h.inStep.current]
    rw [hw] at hlog
    refine ⟨_, ?_, hlog.symm⟩
    rw [turn_cleared hnM, Logged.bind_error _ hresult]

/-- A turn that goes on goes on without flags too. -/
theorem shadow_next {L L' M L₀ : Loop G.schema} {log : List Note} (M₀ : Loop G.schema)
    (h : Shadow L M) (hL : TurnClear G L) (hstep : (loopMachine G env L₀).step L log L') :
    ∃ log' M', (loopMachine (cleared G) env' M₀).step M log' M' ∧
      ranNodes log' = ranNodes log ∧ Shadow L' M' := by
  obtain ⟨hend, hlt, ht⟩ := hstep
  obtain ⟨node, ctx, r, hn, -, -, hw, rfl⟩ := turn_next ht
  obtain ⟨log', ctx', ht', hlog, hshadow⟩ := shadow_walk hG henv henv' h hn hw
  refine ⟨log', _, ⟨?_, ?_, ht'⟩, hlog, hshadow⟩
  · rwa [← h.inStep.current]
  · have := hL.counted hend hlt
    rw [h.order, ← h.counted] at this
    exact this

end

/-! ## A run of the loop -/

/-- How much a run without flags has left at `M`. A pause before a node leaves
it where it is, but the resume then does not pause there again. -/
def room (G : CompiledGraph) (M : Loop G.schema) (bypass : Bool) : Nat :=
  2 * (G.maxTurns - M.ctx.turnNumber) + (if bypass then 0 else 1)

/-- A turn takes room, also where the next pause is not passed over. -/
theorem room_next {M M' : Loop G.schema} {log : List Note}
    (hturn : turn (cleared G) env M = ⟨log, .ok (.next M')⟩) (hlt : M.ctx.turnNumber < G.maxTurns)
    (bypass bypass' : Bool) : room G M' bypass' < room G M bypass := by
  have hnumber := turnNumber_next hturn
  cases bypass <;> cases bypass' <;>
    simp only [room, if_true, Bool.false_eq_true, if_false] <;> omega

section

variable (hG : Deterministic G) (henv : Env.StartsInOrder env) (henv' : Env.StartsInOrder env')

include hG henv henv'

theorem shadow_run {L L' M L₀ : Loop G.schema} {logs : List (List Note)} (M₀ : Loop G.schema)
    (h : Shadow L M)
    (hrun : Run (loopMachine G env L₀) L logs L')
    (hL : ∀ logs N, Run (loopMachine G env L₀) L logs N → TurnClear G N) :
    ∃ logs' M', Run (loopMachine (cleared G) env' M₀) M logs' M' ∧
      ranNodes logs'.flatten = ranNodes logs.flatten ∧ Shadow L' M' ∧
      room G M' L'.bypass ≤ room G M L.bypass := by
  induction hrun generalizing M with
  | stay L => exact ⟨[], M, .stay M, rfl, h, Nat.le_refl _⟩
  | @step L N L' log logs first rest ih =>
    obtain ⟨log', M', hstep, hlog, hnext⟩ :=
      shadow_next hG henv henv' M₀ h (hL [] L (.stay L)) first
    obtain ⟨logs', M'', hrun', hlogs, hshadow, hroom⟩ :=
      ih hnext (fun logs K hK => hL _ K (.step first hK))
    refine ⟨log' :: logs', M'', .step hstep hrun', ?_, hshadow, ?_⟩
    · rw [List.flatten_cons, List.flatten_cons, ranNodes_append, ranNodes_append, hlog, hlogs]
    · exact Nat.le_of_lt (Nat.lt_of_le_of_lt hroom (room_next hstep.2.2 hstep.2.1 _ _))

end

/-- The checkpoint of the pause has all that the run without flags has at `M`. -/
structure Matches (G : CompiledGraph) (p : Pause) (M : Loop G.schema) : Prop where
  current : M.current = .node p.nodeId
  state : WorkflowState.ofDict G.schema p.state = .ok M.state
  loopCounters : p.loopCounters = M.ctx.loopCounters
  order : p.nodeExecutionOrder = M.ctx.nodeExecutionOrder
  counted : M.ctx.turnNumber = M.ctx.nodeExecutionOrder.length
  mode : M.ctx.restrictedMode = false
  plain : M.ctx.config = .empty ∧ M.ctx.replayEvents = [] ∧ M.ctx.hasBus = true

/-- A resume starts where the run without flags is. -/
theorem shadow_resume {p : Pause} {M : Loop G.schema} (h : Matches G p M) (runId : String)
    (n : Int) : Shadow (resumeStart G (checkpointOf runId n p) M.state) M := by
  obtain ⟨hconfig, hreplay, hbus⟩ := h.plain
  refine ⟨⟨h.current.symm, rfl, ⟨hconfig.symm, h.mode.symm, hreplay.symm, hbus.symm⟩,
    h.loopCounters⟩, h.order, h.counted, Nat.zero_le _, h.plain⟩

/-- A pause before a node saves where the run without flags still is. -/
theorem matches_pauseBefore {L M : Loop G.schema} (h : Shadow L M) {id : String}
    (hid : L.current = .node id) (hmode : L.ctx.restrictedMode = false) :
    Matches G (pauseBefore L) M := by
  refine ⟨?_, ?_, h.inStep.loopCounters, h.order, h.counted, ?_, h.plain⟩
  · rw [← h.inStep.current, hid]
    simp only [pauseBefore, hid]
    rfl
  · rw [← h.inStep.state]
    exact WorkflowState.ofDict_data L.state
  · rw [← h.inStep.mode.restrictedMode, hmode]

/-- A pause after a node saves where the run without flags goes on. -/
theorem matches_pauseAfter (L : Loop G.schema) {ctx ctx' : Ctx} {r : Resolution G.schema}
    (h : Shadow (Loop.after ctx r) (Loop.after ctx' r)) {id : String} (hnext : r.next = .node id)
    (hstate : WorkflowState.ofDict G.schema r.stateDict = .ok r.state)
    (hmode : ctx.restrictedMode = false) :
    Matches G (pauseAfter L ctx r) (Loop.after ctx' r) := by
  refine ⟨?_, hstate, rfl, h.order, h.counted, ?_, h.plain⟩
  · simp only [Loop.after, pauseAfter, hnext]
    rfl
  · rw [← h.inStep.mode.restrictedMode]
    exact hmode

/-- The resume of such a checkpoint runs the loop from there. -/
theorem resume_of_matches {p : Pause} {M : Loop G.schema} (h : Matches G p M) (env : Env)
    (runId : String) (n : Int) :
    (resume G env .empty (checkpointOf runId n p)).outcome =
        (runLoop G env (resumeStart G (checkpointOf runId n p) M.state)).ending.outcome ∧
      ranNodes (resume G env .empty (checkpointOf runId n p)).log =
        ranNodes (runLoop G env (resumeStart G (checkpointOf runId n p) M.state)).log := by
  have hstate : WorkflowState.ofDict G.schema ((checkpointOf runId n p).state.update .empty) =
      .ok M.state := by
    rw [Dict.update_empty]
    exact h.state
  have hresume : resume G env .empty (checkpointOf runId n p) =
      finish env false [resumedNote (checkpointOf runId n p) .empty]
        (runLoop G env (resumeStart G (checkpointOf runId n p) M.state)) := by
    simp only [resume, runFrom, hstate]
  rw [hresume, outcome_finish, ranNodes_finish]
  exact ⟨rfl, rfl⟩

section

variable (hG : Deterministic G) (henv : Env.StartsInOrder env) (henv' : Env.StartsInOrder env')

include hG henv henv'

/-- The last turn of a call is the last one of the run without flags, or it
pauses and the run without flags goes on from what the pause saved. -/
theorem shadow_last {L M : Loop G.schema} {log : List Note} {ending : Ending}
    (M₀ : Loop G.schema) (h : Shadow L M) (hL : TurnClear G L) (hlast : Last G env L log ending) :
    (∃ log' ending', Last (cleared G) env' M log' ending' ∧
      ending'.outcome = ending.outcome ∧ ranNodes log' = ranNodes log ∧
      ∀ p, ending ≠ .interrupted p) ∨
    ∃ p logs' M', ending = .interrupted p ∧ Matches G p M' ∧
      Run (loopMachine (cleared G) env' M₀) M logs' M' ∧
      ranNodes logs'.flatten = ranNodes log ∧
      room G M' (p.type = .before) < room G M L.bypass := by
  have hcurrent := h.inStep.current
  cases hlast with
  | done hend =>
    refine Or.inl ⟨[], _, .done (hcurrent.symm.trans hend), ?_, rfl, ?_⟩
    · rw [← h.inStep.state]
    · rintro p ⟨⟩
  | outOfTurns hend ht =>
    refine Or.inl ⟨[], _, .outOfTurns (by rwa [← hcurrent]) (Nat.le_trans ht h.turns), ?_, rfl, ?_⟩
    · rw [← hcurrent]
      rfl
    · rintro p ⟨⟩
  | failed hend ht hturn =>
    obtain ⟨log', hturn', hlog⟩ := shadow_failed hG henv henv' h hturn
    have hlt := hL.counted hend ht
    rw [h.order, ← h.counted] at hlt
    refine Or.inl ⟨log', _, .failed (by rwa [← hcurrent]) hlt hturn', rfl, hlog, ?_⟩
    rintro p ⟨⟩
  | @paused log p hend ht hturn =>
    have hlt := hL.counted hend ht
    rw [h.order, ← h.counted] at hlt
    obtain ⟨node, hn, hpause⟩ := turn_paused hturn
    obtain ⟨id, hid⟩ : ∃ id, L.current = .node id := by
      cases hcur : L.current with
      | END => exact absurd hcur hend
      | node id => exact ⟨id, rfl⟩
    rcases hpause with ⟨hb, rfl, rfl⟩ | ⟨-, ha, ctx, r, l, hw, rfl, rfl⟩
    · -- the pause before the node: the run without flags has not moved
      obtain ⟨hflag, hbypass⟩ := Bool.and_eq_true_iff.mp hb
      have hbypass : L.bypass = false := by simpa using hbypass
      have hmode := hL.before node hn hflag hbypass
      refine Or.inr ⟨_, [], M, rfl, matches_pauseBefore h hid hmode, .stay M, rfl, ?_⟩
      rw [hbypass]
      simp only [room, pauseBefore, decide_true, if_true, Bool.false_eq_true, if_false]
      omega
    · -- the pause after the node: the run without flags took one turn
      obtain ⟨log', ctx', hturn', hlog, hshadow⟩ := shadow_walk hG henv henv' h hn hw
      obtain ⟨state, l', m, hc, hr, rfl⟩ := walk_ok hw
      obtain ⟨hmode, hkeeps, hgoes⟩ := hL.after node l' state ctx hn ha hc
      obtain ⟨⟨next, hnext⟩, hdict⟩ := resolveNext_goesOn hgoes hr
      rw [← resolveNext_keeps hkeeps hr] at hdict
      refine Or.inr ⟨_, [log'], Loop.after ctx' r, rfl,
        matches_pauseAfter L hshadow hnext hdict hmode,
        .step ⟨by rwa [← hcurrent], hlt, hturn'⟩ (.stay _), ?_, room_next hturn' hlt _ _⟩
      simp only [List.flatten_cons, List.flatten_nil, List.append_nil, ranNodes_append] at hlog ⊢
      rw [hlog]
      exact (List.append_nil _).symm

/-- A call of the graph beside a run without flags: it ends with it, or it
pauses and leaves the rest of it. -/
theorem shadow_call {L M : Loop G.schema} (h : Shadow L M) (hL : LoopClear G env L) :
    ((∀ p, (runLoop G env L).ending ≠ .interrupted p) ∧
      (runLoop (cleared G) env' M).ending.outcome = (runLoop G env L).ending.outcome ∧
      ranNodes (runLoop (cleared G) env' M).log = ranNodes (runLoop G env L).log) ∨
    ∃ p M', (runLoop G env L).ending = .interrupted p ∧ Matches G p M' ∧
      (runLoop (cleared G) env' M).ending = (runLoop (cleared G) env' M').ending ∧
      ranNodes (runLoop (cleared G) env' M).log =
        ranNodes (runLoop G env L).log ++ ranNodes (runLoop (cleared G) env' M').log ∧
      room G M' (p.type = .before) < room G M L.bypass := by
  obtain ⟨logs, L', log, ending, hrun, hlast⟩ := exists_path env L L
  obtain ⟨logs', M', hrun', hlogs, hshadow, hroom⟩ :=
    shadow_run hG henv henv' M h hrun hL
  have hX := runLoop_path hrun hlast
  rcases shadow_last hG henv henv' M hshadow (hL logs L' hrun) hlast with
    ⟨log', ending', hlast', houtcome, hlog, hnot⟩ |
      ⟨p, logs'', M'', rfl, hmatches, hrun'', hlog, hless⟩
  · refine Or.inl ⟨by rwa [hX], ?_, ?_⟩
    · rw [hX, runLoop_path hrun' hlast']
      exact houtcome
    · rw [hX, runLoop_path hrun' hlast']
      simp only [ranNodes_append, hlogs, hlog]
  · refine Or.inr ⟨p, M'', by rw [hX], hmatches, ?_, ?_, Nat.lt_of_lt_of_le hless hroom⟩
    · rw [runLoop_run (hrun'.append hrun'')]
    · rw [runLoop_run (hrun'.append hrun''), hX]
      simp only [List.flatten_append, ranNodes_append, hlogs, hlog]

end

/-! ## The whole run -/

/-- `run`, and then `resume` as long as the run is interrupted: the session
after at most `n` resumes. -/
def driven (G : CompiledGraph) (runId : String) (envs : Nat → Env) (initialState : PyDict) :
    Nat → Session
  | 0 => Session.new.after G runId (.run (envs 0) (plainInput initialState))
  | n + 1 =>
    let s := driven G runId envs initialState n
    match s.last with
    | some (.interrupted _) => s.after G runId (.resume (envs (n + 1)) .empty)
    | _ => s

/-- Every turn of the run and of its resumes is clear. -/
structure DriveClear (G : CompiledGraph) (runId : String) (envs : Nat → Env)
    (initialState : PyDict) : Prop where
  run : ∀ state, WorkflowState.ofDict G.schema initialState = .ok state →
    LoopClear G (envs 0) (runStart G ⟨initialState, none, freshCtx runId⟩ state)
  resume : ∀ n cp, (driven G runId envs initialState n).record.latestCheckpoint = some cp →
    ∀ state, WorkflowState.ofDict G.schema cp.state = .ok state →
      LoopClear G (envs (n + 1)) (resumeStart G cp state)

/-- The run is over after some resumes. It called the same nodes and had the
same outcome as one run of the graph without flags. -/
def Transparent (G : CompiledGraph) (runId : String) (envs : Nat → Env) (env : Env)
    (initialState : PyDict) : Prop :=
  let plain := firstRun (cleared G) runId env (plainInput initialState)
  ∃ n, (∀ p, (driven G runId envs initialState n).last ≠ some (.interrupted p)) ∧
    (driven G runId envs initialState n).last = some plain.outcome ∧
    ranNodes (driven G runId envs initialState n).log = ranNodes plain.log

section

variable {runId : String} {envs : Nat → Env} {initialState : PyDict}

theorem driven_kept (n : Nat) : Kept runId (driven G runId envs initialState n) := by
  induction n with
  | zero => exact kept_step (kept_new runId) ⟨.run _ _, rfl⟩
  | succ n ih =>
    simp only [driven]
    split
    · rename_i p hp
      refine kept_step ih ⟨?_, rfl⟩
      rw [hp]
      exact .resume _ _ p
    · exact ih

theorem driven_resume {n : Nat} {p : Pause}
    (hp : (driven G runId envs initialState n).last = some (.interrupted p)) :
    ∃ sequenceNumber,
      (driven G runId envs initialState n).record.latestCheckpoint =
        some (checkpointOf runId sequenceNumber p) ∧
      (driven G runId envs initialState (n + 1)).last =
        some (resume G (envs (n + 1)) .empty (checkpointOf runId sequenceNumber p)).outcome ∧
      (driven G runId envs initialState (n + 1)).log = (driven G runId envs initialState n).log ++
        (resume G (envs (n + 1)) .empty (checkpointOf runId sequenceNumber p)).log := by
  obtain ⟨sequenceNumber, hcp⟩ := (driven_kept n).checkpoint p hp
  refine ⟨sequenceNumber, hcp, ?_, ?_⟩
  all_goals simp only [driven, hp, Session.after, Call.exec, hcp]

theorem not_paused {X : LoopRun} (h : ∀ p, X.ending ≠ .interrupted p) (p : Pause) :
    some X.ending.outcome ≠ some (.interrupted p) := by
  intro hp
  rcases he : X.ending with s | q | ⟨id, e⟩
  · rw [he] at hp
    cases hp
  · exact h q he
  · rw [he] at hp
    cases hp

/-- From a pause on, the resumes do what the run without flags has left. -/
theorem resumes_follow (hG : Deterministic G) (henvs : ∀ n, Env.StartsInOrder (envs n))
    (henv : Env.StartsInOrder env) (hclear : DriveClear G runId envs initialState) (k : Nat) :
    ∀ n p M, room G M (p.type = .before) < k → Matches G p M →
      (driven G runId envs initialState n).last = some (.interrupted p) →
      ∃ m, (∀ q, (driven G runId envs initialState m).last ≠ some (.interrupted q)) ∧
        (driven G runId envs initialState m).last =
          some (runLoop (cleared G) env M).ending.outcome ∧
        ranNodes (driven G runId envs initialState m).log =
          ranNodes (driven G runId envs initialState n).log ++
            ranNodes (runLoop (cleared G) env M).log := by
  induction k with
  | zero =>
    intro n p M hroom
    omega
  | succ k ih =>
    intro n p M hroom hmatches hp
    obtain ⟨sequenceNumber, hcp, hlast, hlog⟩ := driven_resume hp
    obtain ⟨houtcome, hran⟩ := resume_of_matches hmatches (envs (n + 1)) runId sequenceNumber
    rw [houtcome] at hlast
    have hboth := congrArg ranNodes hlog
    rw [ranNodes_append, hran] at hboth
    have hshadow := shadow_resume hmatches runId sequenceNumber
    have hloop := hclear.resume n _ hcp M.state hmatches.state
    rcases shadow_call hG (henvs (n + 1)) henv hshadow hloop with
      ⟨hnot, houtcome, hsame⟩ | ⟨q, M', hq, hmatches', hending, hsame, hless⟩
    · refine ⟨n + 1, ?_, ?_, ?_⟩
      · intro q
        rw [hlast]
        exact not_paused hnot q
      · rw [hlast, houtcome]
      · rw [hboth, hsame]
    · have hq' : (driven G runId envs initialState (n + 1)).last = some (.interrupted q) := by
        rw [hlast, hq]
        rfl
      have hroom' : room G M' (q.type = .before) < k := by
        have hbypass : (resumeStart G (checkpointOf runId sequenceNumber p) M.state).bypass =
          decide (p.type = .before) := rfl
        rw [hbypass] at hless
        omega
      obtain ⟨m, hover, hm, hmran⟩ := ih (n + 1) q M' hroom' hmatches' hq'
      refine ⟨m, hover, ?_, ?_⟩
      · rw [hm, hending]
      · rw [hmran, hboth, hsame, List.append_assoc]

/-- A run that pauses and is resumed, whose turns are all clear, calls the
same nodes and has the same outcome as the run without flags. -/
theorem pauses_are_transparent (G : CompiledGraph) (runId : String) (envs : Nat → Env) (env : Env)
    (initialState : PyDict) (hG : Deterministic G) (henvs : ∀ n, Env.StartsInOrder (envs n))
    (henv : Env.StartsInOrder env) (hclear : DriveClear G runId envs initialState) :
    Transparent G runId envs env initialState := by
  let input : RunInput := ⟨initialState, none, freshCtx runId⟩
  have hfirst : ∀ (H : CompiledGraph) (env : Env),
      firstRun H runId env (plainInput initialState) = run H env input := fun _ _ => rfl
  have hlast : (driven G runId envs initialState 0).last = some (run G (envs 0) input).outcome :=
    rfl
  have hlog : (driven G runId envs initialState 0).log = (run G (envs 0) input).log := rfl
  unfold Transparent
  simp only [hfirst]
  rcases hstate : WorkflowState.ofDict G.schema initialState with e | state
  · have hrun := run_invalid G (envs 0) input hstate
    have hplain := run_invalid (cleared G) env input hstate
    rw [hrun] at hlast hlog
    rw [hplain]
    refine ⟨0, ?_, hlast, ?_⟩
    · intro p hp
      rw [hlast] at hp
      cases hp
    · rw [hlog]
      rfl
  · have hrun := run_valid G (envs 0) input hstate
    have hplain : run (cleared G) env input = finish env true [startedNote G input]
        (runLoop (cleared G) env (runStart G input state)) :=
      run_valid (cleared G) env input hstate
    have hshadow : Shadow (runStart G input state) (runStart G input state) :=
      ⟨⟨rfl, rfl, .refl _, rfl⟩, rfl, rfl, Nat.le_refl _, rfl, rfl, rfl⟩
    rw [hrun, outcome_finish] at hlast
    have hran := congrArg ranNodes hlog
    rw [hrun, ranNodes_finish] at hran
    rw [hplain, outcome_finish, ranNodes_finish]
    rcases shadow_call hG (henvs 0) henv hshadow (hclear.run state hstate) with
      ⟨hnot, houtcome, hsame⟩ | ⟨p, M, hp, hmatches, hending, hsame, -⟩
    · refine ⟨0, ?_, ?_, ?_⟩
      · intro p
        rw [hlast]
        exact not_paused hnot p
      · rw [hlast, houtcome]
      · rw [hran, hsame]
    · have hp' : (driven G runId envs initialState 0).last = some (.interrupted p) := by
        rw [hlast, hp]
        rfl
      obtain ⟨m, hover, hm, hmran⟩ :=
        resumes_follow hG henvs henv hclear _ 0 p M (Nat.lt_succ_self _) hmatches hp'
      refine ⟨m, hover, ?_, ?_⟩
      · rw [hm, hending]
      · rw [hmran, hran, hsame, List.append_assoc]

end

/-! ## A run with two pauses -/

/-- Two steps, with a pause after the first one and one before the second. -/
def reviewed : CompiledGraph where
  nodes := Dict.ofList [
    ("draft", .function { pureNode "draft" fun _ => Dict.ofList [("text", .str "a poem")] with
      interruptAfter := true }),
    ("review", .function { pureNode "review" fun _ => Dict.ofList [("approved", .bool true)] with
      interruptBefore := true })]
  edges := [.plain "draft" (.node "review"), .plain "review" .END]
  entryPoint := "draft"
  schema := none
  maxTurns := 50
  name := ""
  handoffEdges := []

theorem deterministic_reviewed : Deterministic reviewed := by
  intro nodeId node hn
  have hmem := (Dict.mem_entries_iff _ _ _).mpr hn
  rcases List.mem_pair.mp hmem with h | h
  · cases h
    exact answersLike_function _ (fun _ _ _ => rfl)
  · cases h
    exact answersLike_function _ (fun _ _ _ => rfl)

/-- A loop whose first turn does not go on comes nowhere else. -/
theorem loopClear_of_pause {L : Loop G.schema} {log : List Note} {p : Pause}
    (ht : turn G env L = ⟨log, .ok (.paused p)⟩) (hL : TurnClear G L) : LoopClear G env L := by
  intro logs L' hrun
  cases hrun with
  | stay => exact hL
  | step first rest =>
    have hnext := first.2.2
    rw [ht] at hnext
    cases hnext

/-- A loop whose first turn leads to the end. -/
theorem loopClear_of_end {L L' : Loop G.schema} {log : List Note}
    (ht : turn G env L = ⟨log, .ok (.next L')⟩) (hend : L'.current = .END)
    (hL : TurnClear G L) (hL' : TurnClear G L') : LoopClear G env L := by
  intro logs L'' hrun
  cases hrun with
  | stay => exact hL
  | step first rest =>
    have hnext := first.2.2
    rw [ht] at hnext
    cases hnext
    cases rest with
    | stay => exact hL'
    | step second _ => exact absurd hend second.1

theorem driveClear_reviewed : DriveClear reviewed "run" (fun _ => inOrder) .empty := by
  have hend : ∀ n, driven reviewed "run" (fun _ => inOrder) .empty (n + 2) =
      driven reviewed "run" (fun _ => inOrder) .empty 2 := by
    intro n
    induction n with
    | zero => rfl
    | succ n ih =>
      have hstep : driven reviewed "run" (fun _ => inOrder) .empty (n + 1 + 2) =
          match (driven reviewed "run" (fun _ => inOrder) .empty (n + 2)).last with
          | some (.interrupted _) =>
            (driven reviewed "run" (fun _ => inOrder) .empty (n + 2)).after reviewed "run"
              (.resume inOrder .empty)
          | _ => driven reviewed "run" (fun _ => inOrder) .empty (n + 2) := rfl
      rw [hstep, ih]
      rfl
  have hlast : ∀ cp, (driven reviewed "run" (fun _ => inOrder) .empty 1).record.latestCheckpoint =
      some cp → ∀ state, WorkflowState.ofDict reviewed.schema cp.state = .ok state →
        LoopClear reviewed inOrder (resumeStart reviewed cp state) := by
    intro cp hcp state hstate
    cases hcp
    cases hstate
    refine loopClear_of_end rfl rfl ⟨fun _ _ => by decide, fun _ _ _ _ => rfl, ?_⟩ ⟨?_, ?_, ?_⟩
    · intro node log state ctx hn ha _
      cases hn
      cases ha
    · intro hcur
      exact absurd rfl hcur
    · intro node hn
      cases hn
    · intro node log state ctx hn
      cases hn
  refine ⟨?_, ?_⟩
  · intro state hstate
    cases hstate
    refine loopClear_of_pause rfl ⟨fun _ _ => by decide, ?_, ?_⟩
    · intro node hn hb _
      rfl
    · intro node log state ctx hn _ hc
      cases hn
      cases hc
      refine ⟨rfl, trivial, ?_⟩
      show Target.node "review" ≠ .END
      decide
  · intro n cp hcp state hstate
    rcases n with _ | _ | n
    · cases hcp
      cases hstate
      refine loopClear_of_pause rfl ⟨fun _ _ => by decide, fun _ _ _ _ => rfl, ?_⟩
      intro node log state ctx hn ha _
      cases hn
      cases ha
    · exact hlast cp hcp state hstate
    · rw [hend] at hcp
      exact hlast cp hcp state hstate

theorem a_reviewed_run_is_transparent :
    Transparent reviewed "run" (fun _ => inOrder) inOrder .empty :=
  pauses_are_transparent reviewed "run" (fun _ => inOrder) inOrder .empty deterministic_reviewed
    (fun _ => startsInOrder_inOrder) startsInOrder_inOrder driveClear_reviewed

/-! ## A pause that loses the end -/

/-- One step, with a pause after it. -/
def asking : CompiledGraph where
  nodes := Dict.ofList [
    ("ask", .function { pureNode "ask" fun _ => Dict.ofList [("asked", .bool true)] with
      interruptAfter := true })]
  edges := [.plain "ask" .END]
  entryPoint := "ask"
  schema := none
  maxTurns := 50
  name := ""
  handoffEdges := []

theorem deterministic_asking : Deterministic asking := by
  intro nodeId node hn
  have hmem := (Dict.mem_entries_iff _ _ _).mpr hn
  cases List.mem_singleton.mp hmem
  exact answersLike_function _ (fun _ _ _ => rfl)

/-- The resume looks for a node with the id `END`. -/
theorem asking_fails (n : Nat) :
    (driven asking "run" (fun _ => inOrder) .empty (n + 1)).last =
      some (.raised (.nodeNotFound "END" ["ask"])) := by
  induction n with
  | zero => rfl
  | succ n ih =>
    rw [driven]
    simp only [ih]

/-- After a pause behind the last node no resume reaches the end, which the
run without flags does. -/
theorem a_pause_after_the_last_node_is_not_transparent :
    Deterministic asking ∧
    (driven asking "run" (fun _ => inOrder) .empty 1).last =
      some (.raised (.nodeNotFound "END" ["ask"])) ∧
    (firstRun (cleared asking) "run" inOrder (plainInput .empty)).outcome =
      .completed (Dict.ofList [("asked", .bool true)]) ∧
    ¬ Transparent asking "run" (fun _ => inOrder) inOrder .empty := by
  have hplain : (firstRun (cleared asking) "run" inOrder (plainInput .empty)).outcome =
      .completed (Dict.ofList [("asked", .bool true)]) := rfl
  refine ⟨deterministic_asking, rfl, hplain, ?_⟩
  rintro ⟨n, hover, hlast, -⟩
  cases n with
  | zero => exact hover _ rfl
  | succ n =>
    rw [asking_fails, hplain] at hlast
    cases hlast

end orchestra.pauses
