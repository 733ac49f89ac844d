-- What the page shows of the nodes of a run that finished. The reducer marks a node
-- by the events of the engine: running when it starts, waiting at a pause. A resume
-- names the node to go on at, which is not always the one that waits, and a failed
-- run ends with an event that the reducer takes for a completed one.
import Orchestra.Mirror

open dicts logged machine orchestra.state orchestra.edges orchestra.events orchestra.nodes
open orchestra.compiled orchestra.turns orchestra.runs orchestra.sessions orchestra.run_store
open orchestra.projection orchestra.mirror

namespace orchestra.node_statuses

variable {G : CompiledGraph} {env : Env} {runId : String}

/-! ## The marks of the nodes -/

def awaits (s : ReducerState) (nodeId : String) : Bool := (s.nodeDataFor nodeId).awaitingResume

/-- The node neither runs nor waits. -/
structure Rests (s : ReducerState) (nodeId : String) : Prop where
  running : s.nodeStatuses.get? nodeId ≠ some .running
  waiting : s.nodeStatuses.get? nodeId ≠ some .waiting

/-- No node waits for a resume, and all but perhaps one rest. -/
structure RestsBut (s : ReducerState) (nodeId : String) : Prop where
  rests : ∀ n, n ≠ nodeId → Rests s n
  awaits : ∀ n, n ≠ nodeId → awaits s n = false

/-- Both states mark the nodes and the run alike. -/
structure SameMarks (s t : ReducerState) : Prop where
  statuses : ∀ n, s.nodeStatuses.get? n = t.nodeStatuses.get? n
  awaits : ∀ n, awaits s n = awaits t n
  run : s.metrics.status = t.metrics.status

theorem SameMarks.refl (s : ReducerState) : SameMarks s s :=
  ⟨fun _ => rfl, fun _ => rfl, rfl⟩

theorem SameMarks.trans {s t u : ReducerState} (h1 : SameMarks s t) (h2 : SameMarks t u) :
    SameMarks s u where
  statuses n := (h1.statuses n).trans (h2.statuses n)
  awaits n := (h1.awaits n).trans (h2.awaits n)
  run := h1.run.trans h2.run

theorem awaits_setData (s : ReducerState) (nodeId : String) (f : NodeData → NodeData) (n : String) :
    awaits (s.setData nodeId f) n =
      if nodeId = n then (f (s.nodeDataFor nodeId)).awaitingResume else awaits s n := by
  have hget : (s.setData nodeId f).nodeData.get? n =
      if nodeId = n then some (f (s.nodeDataFor nodeId)) else s.nodeData.get? n :=
    Dict.get?_set ..
  unfold awaits
  conv_lhs => unfold ReducerState.nodeDataFor
  rw [hget]
  split <;> rfl

theorem get?_setStatus (s : ReducerState) (nodeId : String) (status : NodeStatus) (n : String) :
    (s.setStatus nodeId status).nodeStatuses.get? n =
      if nodeId = n then some status else s.nodeStatuses.get? n :=
  Dict.get?_set ..

/-- What is counted of a node is no mark. -/
theorem sameMarks_setData (s : ReducerState) (nodeId : String) {f : NodeData → NodeData}
    (hf : ∀ d, (f d).awaitingResume = d.awaitingResume) : SameMarks (s.setData nodeId f) s := by
  refine ⟨fun _ => rfl, fun n => ?_, rfl⟩
  rw [awaits_setData]
  split
  · rename_i h
    rw [hf, h]
    rfl
  · rfl

theorem sameMarks_markSecure (s : ReducerState) (nodeId : String) :
    SameMarks (s.markSecure nodeId) s :=
  sameMarks_setData s nodeId (fun _ => rfl)

theorem sameMarks_quiet (s : ReducerState) {e : EventBody} (h : QuietBody e) :
    SameMarks (eventReducer s e) s := by
  cases e with
  | agent nodeId e =>
    cases e with
    | llmCalled agentName model content toolCalls inputTokens outputTokens costUsd reason =>
      obtain ⟨hstatuses, hawaits, -⟩ := sameMarks_setData s nodeId
        (f := fun d => { d with cost := d.cost + costUsd, model := some model }) (fun _ => rfl)
      exact ⟨hstatuses, hawaits, rfl⟩
    | toolCalled agentName toolName arguments result error =>
      exact sameMarks_setData s nodeId
        (f := fun d => { d with toolCount := d.toolCount + 1 }) (fun _ => rfl)
    | securityViolation agentName violationType details => exact sameMarks_markSecure s nodeId
    | restrictedModeEntered riskScore detected trigger => exact sameMarks_markSecure s nodeId
  | inputRejected nodeId agentName guardrail messages => exact sameMarks_markSecure s nodeId
  | outputRejected nodeId agentName contractName errors => exact sameMarks_markSecure s nodeId
  | handoffInitiated fromAgent toAgent reason => exact SameMarks.refl s
  | _ => exact h.elim

/-! ## The marks of a log -/

/-- What the page shows after the events of a log. -/
def reduceLog (s : ReducerState) (log : List Note) : ReducerState :=
  (bodies log).foldl eventReducer s

theorem reduceLog_append (s : ReducerState) (l m : List Note) :
    reduceLog s (l ++ m) = reduceLog (reduceLog s l) m := by
  unfold reduceLog
  rw [bodies_append, List.foldl_append]

theorem reduceLog_emit (s : ReducerState) (body : EventBody) (numbered : Bool) :
    reduceLog s [.emit ⟨body, numbered⟩] = eventReducer s body := rfl

theorem sameMarks_reduceLog {log : List Note} (h : ∀ n ∈ log, Quiet n) (s : ReducerState) :
    SameMarks (reduceLog s log) s := by
  induction log generalizing s with
  | nil => exact SameMarks.refl s
  | cons n rest ih =>
    have hrest := fun s => ih (fun m hm => h m (by simp [hm])) s
    cases n with
    | emit e => exact (hrest _).trans (sameMarks_quiet s (h (.emit e) (by simp)))
    | _ => exact hrest s

theorem run_eventReducer_loopBody (s : ReducerState) {e : EventBody} (h : LoopBody e) :
    (eventReducer s e).metrics.status = s.metrics.status := by
  cases e with
  | nodeStarted nodeId nodeType => rfl
  | nodeCompleted nodeId nodeType stateUpdate => rfl
  | interruptRequested nodeId type => rfl
  | _ =>
    apply (sameMarks_quiet s _).run
    exact h

/-- The loop leaves the status of the run. -/
theorem run_reduceLog_loop {log : List Note} (h : ∀ n ∈ log, LoopNote n) (s : ReducerState) :
    (reduceLog s log).metrics.status = s.metrics.status := by
  induction log generalizing s with
  | nil => rfl
  | cons n rest ih =>
    have hrest := fun s => ih (fun m hm => h m (by simp [hm])) s
    cases n with
    | emit e => exact (hrest _).trans (run_eventReducer_loopBody s (h (.emit e) (by simp)))
    | _ => exact hrest s

/-! ## One turn -/

/-- The marks of a turn that went through its node. -/
structure Walked (s t : ReducerState) (nodeId : String) : Prop where
  statuses : ∀ n, t.nodeStatuses.get? n =
    if nodeId = n then some .completed else s.nodeStatuses.get? n
  awaits : ∀ n, awaits t n = awaits s n

theorem walked_walk {L : Loop G.schema} {node : GraphNode} {log : List Note} {ctx : Ctx}
    {r : Resolution G.schema} (h : walk G env L node = ⟨log, .ok (ctx, r)⟩) (s : ReducerState) :
    Walked s (reduceLog s log) L.current.text := by
  obtain ⟨state, l, m, hc, hr, rfl⟩ := walk_ok h
  obtain ⟨update, mode, nodeLog, hdone⟩ := completeNode_ok hc
  have hinner := sameMarks_reduceLog (quiet_nodeLog hdone.ran)
    (eventReducer s (.nodeStarted L.current.text node.typeName))
  have hway : SameMarks (reduceLog (reduceLog s l) m) (reduceLog s l) := by
    apply sameMarks_reduceLog
    have hquiet : ∀ n ∈ (resolveNext G env ctx L.current.text state.data state).log, Quiet n :=
      quiet_resolveNext
    rwa [hr] at hquiet
  have hnode : Walked s (reduceLog s l) L.current.text := by
    rw [hdone.wrote, ← List.singleton_append, reduceLog_append, reduceLog_append]
    refine ⟨fun n => ?_, fun n => hinner.awaits n⟩
    have hlast : (reduceLog (reduceLog (reduceLog s
        [.emit ⟨.nodeStarted L.current.text node.typeName, true⟩]) nodeLog)
        [.emit ⟨.nodeCompleted L.current.text node.typeName update, true⟩,
          .holds state.data]).nodeStatuses.get? n =
        if L.current.text = n then some .completed else
          (reduceLog (reduceLog s [.emit ⟨.nodeStarted L.current.text node.typeName, true⟩])
            nodeLog).nodeStatuses.get? n := get?_setStatus ..
    have hfirst : (eventReducer s (.nodeStarted L.current.text node.typeName)).nodeStatuses.get? n =
        if L.current.text = n then some .running else s.nodeStatuses.get? n := get?_setStatus ..
    rw [hlast]
    split
    · rfl
    · rename_i hne
      rw [reduceLog_emit, hinner.statuses, hfirst, if_neg hne]
  rw [reduceLog_append]
  exact ⟨fun n => (hway.statuses n).trans (hnode.statuses n),
    fun n => (hway.awaits n).trans (hnode.awaits n)⟩

/-- No node runs, waits or awaits a resume. -/
structure AllRest (s : ReducerState) : Prop where
  rests : ∀ n, Rests s n
  awaits : ∀ n, awaits s n = false

/-- The loop stands at a place, and no node but the one there can be marked as running. -/
structure Entering {schema : Option Schema} (s : ReducerState) (L : Loop schema) : Prop where
  rests : ∀ n, n ≠ L.current.text ∨ L.current = .END → Rests s n
  awaits : ∀ n, awaits s n = false

theorem allRest_walk {L : Loop G.schema} {node : GraphNode} {log : List Note} {ctx : Ctx}
    {r : Resolution G.schema} (h : walk G env L node = ⟨log, .ok (ctx, r)⟩) {s : ReducerState}
    (hs : Entering s L) : AllRest (reduceLog s log) := by
  have hwalked := walked_walk h s
  refine ⟨fun n => ?_, fun n => (hwalked.awaits n).trans (hs.awaits n)⟩
  have hstatus := hwalked.statuses n
  by_cases hn : L.current.text = n
  · rw [if_pos hn] at hstatus
    exact ⟨by simp [hstatus], by simp [hstatus]⟩
  · rw [if_neg hn] at hstatus
    have hrests := hs.rests n (.inl fun heq => hn heq.symm)
    exact ⟨by simp [hstatus, hrests.running], by simp [hstatus, hrests.waiting]⟩

theorem entering_next {L₀ L L' : Loop G.schema} {log : List Note}
    (h : (loopMachine G env L₀).step L log L') {s : ReducerState} (hs : Entering s L) :
    Entering (reduceLog s log) L' := by
  obtain ⟨node, ctx, r, -, -, -, hw, rfl⟩ := turn_next h.2.2
  obtain ⟨hrests, hawaits⟩ := allRest_walk hw hs
  exact ⟨fun n _ => hrests n, hawaits⟩

theorem entering_run {L₀ L L' : Loop G.schema} {logs : List (List Note)}
    (h : Run (loopMachine G env L₀) L logs L') {s : ReducerState} (hs : Entering s L) :
    Entering (reduceLog s logs.flatten) L' := by
  induction h generalizing s with
  | stay L => exact hs
  | step first _ ih =>
    rw [List.flatten_cons, reduceLog_append]
    exact ih (entering_next first hs)

theorem awaits_interruptRequested (s : ReducerState) (nodeId : String) (type : InterruptType)
    (n : String) : awaits (eventReducer s (.interruptRequested nodeId type)) n =
      if nodeId = n then true else awaits s n :=
  awaits_setData (s.setStatus nodeId .waiting) nodeId _ n

/-- A pause marks its node, whatever was marked before. -/
theorem awaits_of_paused {L : Loop G.schema} {log : List Note} {p : Pause}
    (h : turn G env L = ⟨log, .ok (.paused p)⟩) (s : ReducerState) :
    awaits (reduceLog s log) p.interruptedAt = true := by
  obtain ⟨node, -, hpause⟩ := turn_paused h
  rcases hpause with ⟨-, rfl, rfl⟩ | ⟨-, -, ctx, r, l, -, rfl, rfl⟩
  · rw [reduceLog_emit, awaits_interruptRequested]
    exact if_pos rfl
  · rw [reduceLog_append, reduceLog_emit, awaits_interruptRequested]
    exact if_pos rfl

theorem restsBut_interruptRequested {s : ReducerState} {nodeId : String} (type : InterruptType)
    (hs : RestsBut s nodeId) : RestsBut (eventReducer s (.interruptRequested nodeId type)) nodeId := by
  constructor
  · intro n hn
    have hstatus : (eventReducer s (.interruptRequested nodeId type)).nodeStatuses.get? n =
        if nodeId = n then some .waiting else s.nodeStatuses.get? n := get?_setStatus ..
    rw [if_neg (fun heq => hn heq.symm)] at hstatus
    have hrests := hs.rests n hn
    exact ⟨by simp [hstatus, hrests.running], by simp [hstatus, hrests.waiting]⟩
  · intro n hn
    rw [awaits_interruptRequested, if_neg (fun heq => hn heq.symm)]
    exact hs.awaits n hn

theorem restsBut_of_paused {L : Loop G.schema} {log : List Note} {p : Pause}
    (h : turn G env L = ⟨log, .ok (.paused p)⟩) {s : ReducerState} (hs : Entering s L) :
    RestsBut (reduceLog s log) p.interruptedAt := by
  obtain ⟨node, -, hpause⟩ := turn_paused h
  rcases hpause with ⟨-, rfl, rfl⟩ | ⟨-, -, ctx, r, l, hw, rfl, rfl⟩
  · exact restsBut_interruptRequested .before
      ⟨fun n hn => hs.rests n (.inl hn), fun n _ => hs.awaits n⟩
  · obtain ⟨hrests, hawaits⟩ := allRest_walk hw hs
    rw [reduceLog_append]
    exact restsBut_interruptRequested .after ⟨fun n _ => hrests n, fun n _ => hawaits n⟩

/-! ## A call -/

theorem loop_paused {L : Loop G.schema} {p : Pause} (h : (runLoop G env L).ending = .interrupted p)
    (s : ReducerState) : awaits (reduceLog s (runLoop G env L).log) p.interruptedAt = true ∧
      (Entering s L → RestsBut (reduceLog s (runLoop G env L).log) p.interruptedAt) := by
  obtain ⟨logs, L', log, ending, hrun, hlast⟩ := exists_path env L L
  rw [runLoop_path hrun hlast] at h ⊢
  subst h
  rw [reduceLog_append]
  cases hlast with
  | paused hend ht hturn =>
    exact ⟨awaits_of_paused hturn _, fun hs => restsBut_of_paused hturn (entering_run hrun hs)⟩

theorem loop_completed {L : Loop G.schema} {state : PyDict}
    (h : (runLoop G env L).ending = .completed state) {s : ReducerState} (hs : Entering s L) :
    AllRest (reduceLog s (runLoop G env L).log) := by
  obtain ⟨logs, L', log, ending, hrun, hlast⟩ := exists_path env L L
  rw [runLoop_path hrun hlast] at h ⊢
  subst h
  rw [reduceLog_append]
  cases hlast with
  | done hend =>
    obtain ⟨hrests, hawaits⟩ := entering_run hrun hs
    exact ⟨fun n => hrests n (.inr hend), hawaits⟩

/-- What a call makes of the marks, from `s` after its first event to `t`. -/
structure CallMarks (s t : ReducerState) (outcome : Outcome) : Prop where
  paused : ∀ p, outcome = .interrupted p →
    awaits t p.interruptedAt = true ∧ t.metrics.status = s.metrics.status
  completed : ∀ state, outcome = .completed state → t.metrics.status = .completed
  raised : ∀ e, outcome = .raised e →
    t.metrics.status = s.metrics.status ∨ t.metrics.status = .completed

/-- What a call leaves of nodes that run or wait. -/
structure CallRests (t : ReducerState) (outcome : Outcome) : Prop where
  paused : ∀ p, outcome = .interrupted p → RestsBut t p.interruptedAt
  completed : ∀ state, outcome = .completed state → AllRest t

variable {metered : Bool} {before : List Note} {stateDict : PyDict}
  {start : WorkflowState G.schema → Loop G.schema}

theorem callMarks_runFrom (s : ReducerState) :
    CallMarks (reduceLog s before)
      (reduceLog s (runFrom G env metered before stateDict start).log)
      (runFrom G env metered before stateDict start).outcome := by
  unfold runFrom
  rcases WorkflowState.ofDict G.schema stateDict with e | state
  · exact ⟨by rintro p ⟨⟩, by rintro final ⟨⟩, fun _ _ => .inl rfl⟩
  have hrun := run_reduceLog_loop (loopNotes_runLoop env (start state)) (reduceLog s before)
  rcases hending : (runLoop G env (start state)).ending with final | p | ⟨nodeId, e⟩
  all_goals
    simp only [finish, hending, reduceLog_append]
  · exact ⟨by rintro p ⟨⟩, fun _ _ => rfl, by rintro e ⟨⟩⟩
  · refine ⟨?_, by rintro final ⟨⟩, by rintro e ⟨⟩⟩
    rintro q ⟨⟩
    exact ⟨(loop_paused hending _).1, hrun⟩
  · exact ⟨by rintro p ⟨⟩, by rintro final ⟨⟩, fun _ _ => .inr rfl⟩

theorem callRests_runFrom {s : ReducerState}
    (h : ∀ state, WorkflowState.ofDict G.schema stateDict = .ok state →
      Entering (reduceLog s before) (start state)) :
    CallRests (reduceLog s (runFrom G env metered before stateDict start).log)
      (runFrom G env metered before stateDict start).outcome := by
  unfold runFrom
  rcases hstate : WorkflowState.ofDict G.schema stateDict with e | state
  · exact ⟨by rintro p ⟨⟩, by rintro final ⟨⟩⟩
  have hentering := h state hstate
  rcases hending : (runLoop G env (start state)).ending with final | p | ⟨nodeId, e⟩
  all_goals
    simp only [finish, hending, reduceLog_append]
  · refine ⟨by rintro p ⟨⟩, fun _ _ => ?_⟩
    obtain ⟨hrests, hawaits⟩ := loop_completed hending hentering
    exact ⟨fun n => ⟨(hrests n).running, (hrests n).waiting⟩, hawaits⟩
  · refine ⟨?_, by rintro final ⟨⟩⟩
    rintro q ⟨⟩
    exact (loop_paused hending _).2 hentering
  · exact ⟨by rintro p ⟨⟩, by rintro final ⟨⟩⟩

/-! ## Resumes -/

def IsResume : EventBody → Prop
  | .interruptResumed .. => True
  | _ => False

/-- Right after each resume, no node is marked as awaiting one. -/
def ResumesClear (events : List EventBody) : Prop :=
  ∀ pre e, pre ++ [e] <+: events → IsResume e →
    ∀ n, awaits ((pre ++ [e]).foldl eventReducer initialReducerState) n = false

theorem resumesClear_concat (events : List EventBody) (e : EventBody) :
    ResumesClear (events ++ [e]) ↔ ResumesClear events ∧ (IsResume e →
      ∀ n, awaits ((events ++ [e]).foldl eventReducer initialReducerState) n = false) := by
  constructor
  · intro h
    exact ⟨fun pre e' hpre => h pre e' (hpre.trans (List.prefix_append _ _)),
      h events e (List.prefix_refl _)⟩
  · rintro ⟨hevents, hlast⟩ pre e' hpre hresume
    rcases List.prefix_concat_iff.mp hpre with heq | hpre
    · obtain ⟨rfl, he⟩ := List.append_inj' heq rfl
      obtain rfl : e' = e := by simpa using he
      exact hlast hresume
    · exact hevents pre e' hpre hresume

theorem resumesClear_append {events new : List EventBody} (h : ∀ e ∈ new, ¬IsResume e) :
    ResumesClear (events ++ new) ↔ ResumesClear events := by
  induction new generalizing events with
  | nil => rw [List.append_nil]
  | cons e rest ih =>
    rw [List.append_cons, ih (fun e' he => h e' (by simp [he])), resumesClear_concat]
    simp [h e (by simp)]

theorem not_resume_of_callBody {e : EventBody} (h : CallBody e) : ¬IsResume e := by
  cases e <;> first | exact id | exact absurd h id

theorem awaits_interruptResumed (s : ReducerState) (nodeId : String) (stateModifications : PyDict)
    (n : String) : awaits (eventReducer s (.interruptResumed nodeId stateModifications)) n =
      if nodeId = n then false else awaits s n :=
  awaits_setData (s.setStatus nodeId .running) nodeId
    (fun d => { d with awaitingResume := false }) n

theorem awaits_resumed {s : ReducerState} {nodeId : String} (hs : RestsBut s nodeId)
    (stateModifications : PyDict) (n : String) :
    awaits (eventReducer s (.interruptResumed nodeId stateModifications)) n = false := by
  rw [awaits_interruptResumed]
  split
  · rfl
  · rename_i hne
    exact hs.awaits n (fun heq => hne heq.symm)

/-- The resume of the node that waits leaves no other mark than that it runs. -/
theorem entering_resumed {schema : Option Schema} {s : ReducerState} {nodeId : String}
    (hs : RestsBut s nodeId) (stateModifications : PyDict) {L : Loop schema}
    (hL : L.current = .node nodeId) :
    Entering (eventReducer s (.interruptResumed nodeId stateModifications)) L := by
  refine ⟨fun n hn => ?_, awaits_resumed hs stateModifications⟩
  have hne : n ≠ nodeId := by
    rcases hn with hn | hend
    · rwa [hL] at hn
    · rw [hL] at hend
      cases hend
  have hstatus : (eventReducer s
      (.interruptResumed nodeId stateModifications)).nodeStatuses.get? n =
      if nodeId = n then some .running else s.nodeStatuses.get? n := get?_setStatus ..
  rw [if_neg (fun heq => hne heq.symm)] at hstatus
  have hrests := hs.rests n hne
  exact ⟨by simp [hstatus, hrests.running], by simp [hstatus, hrests.waiting]⟩

/-! ## Sessions -/

/-- What the page shows of the run. -/
def shown (s : Session) : ReducerState := reduceAll initialReducerState s.record.events

theorem shown_eq {s : Session} (hs : Kept runId s) :
    shown s = reduceLog initialReducerState s.log := by
  unfold shown reduceAll reduceLog
  rw [← hs.stored]
  exact List.foldl_map.symm

/-- The call of a run that finished did not pause. -/
def Finished (s : Session) : Prop := ∃ o, s.last = some o ∧ ∀ p, o ≠ .interrupted p

/-- The status of the run is `error` just when it failed, no node is left running or waiting,
and none was marked as awaiting a resume right after one. -/
structure StatusesRight (s : Session) : Prop where
  run : (shown s).metrics.status = .error ↔ ∃ e, s.last = some (.raised e)
  rests : ∀ n, Rests (shown s) n
  resumes : ResumesClear (stored s.record)

/-- A resume goes on at the node at which the run paused. -/
def ResumesInPlace (s : Session) (_ : Call) : Prop :=
  ∀ p, s.last = some (.interrupted p) → p.interruptedAt = p.nodeId

/-- What the marks say of the last call, in any session. -/
structure Marked (s : Session) : Prop where
  fresh : s.last = none → s.log = []
  paused : ∀ p, s.last = some (.interrupted p) →
    awaits (reduceLog initialReducerState s.log) p.interruptedAt = true ∧
      (reduceLog initialReducerState s.log).metrics.status = .running
  completed : ∀ state, s.last = some (.completed state) →
    (reduceLog initialReducerState s.log).metrics.status = .completed
  raised : ∀ e, s.last = some (.raised e) →
    (reduceLog initialReducerState s.log).metrics.status ≠ .error

theorem marked_new : Marked .new :=
  ⟨fun _ => rfl, by rintro p ⟨⟩, by rintro state ⟨⟩, by rintro e ⟨⟩⟩

theorem marked_of_callMarks {s t : ReducerState} {log : List Note} {r : RunRecord}
    {outcome : Outcome} (h : CallMarks s t outcome) (hrun : s.metrics.status = .running)
    (ht : reduceLog initialReducerState log = t) : Marked ⟨r, log, some outcome⟩ := by
  subst ht
  refine ⟨by rintro ⟨⟩, ?_, ?_, ?_⟩
  · rintro p ⟨⟩
    obtain ⟨hawaits, hstatus⟩ := h.paused p rfl
    exact ⟨hawaits, hstatus.trans hrun⟩
  · rintro state ⟨⟩
    exact h.completed state rfl
  · rintro e ⟨⟩ herror
    rcases h.raised e rfl with hstatus | hstatus
    · rw [hstatus, hrun] at herror
      cases herror
    · rw [hstatus] at herror
      cases herror

theorem marked_step {s t : Session} {call : Call} (hkept : Kept runId s) (hs : Marked s)
    (h : (sessionMachine G runId).step s call t) : Marked t := by
  rcases session_cases hkept h with
    ⟨env, input, -, -, rfl⟩ | ⟨env, stateUpdates, p, n, hlast, -, -, rfl⟩
  · exact marked_of_callMarks (callMarks_runFrom _) rfl (reduceLog_append ..)
  · have hrun := (hs.paused p hlast).2
    exact marked_of_callMarks (callMarks_runFrom _) hrun (reduceLog_append ..)

/-- What the marks leave out, in a session that resumes in place. -/
structure Calm (s : Session) : Prop where
  rests : ∀ o, s.last = some o → CallRests (reduceLog initialReducerState s.log) o
  resumes : ResumesClear (bodies s.log)

theorem calm_new : Calm .new := by
  refine ⟨by rintro o ⟨⟩, ?_⟩
  intro pre e hpre
  have hnil := List.prefix_nil.mp hpre
  simp at hnil

/-- The events of a call, after its first one, resume nothing. -/
theorem resumesClear_runFrom {events : List EventBody} :
    ResumesClear (events ++ bodies (runFrom G env metered before stateDict start).log) ↔
      ResumesClear (events ++ bodies before) := by
  obtain ⟨rest, hrest, hcall⟩ := bodies_runFrom G env metered before stateDict start
  rw [hrest, ← List.append_assoc]
  exact resumesClear_append (fun e he => not_resume_of_callBody (hcall e he))

theorem entering_started (input : RunInput) (schema : Option Schema) (L : Loop schema) :
    Entering (reduceLog initialReducerState [startedNote G input]) L := by
  have hnone : ∀ n, (reduceLog initialReducerState [startedNote G input]).nodeStatuses.get? n =
      none := fun _ => rfl
  exact ⟨fun n _ => ⟨by simp [hnone], by simp [hnone]⟩, fun _ => rfl⟩

theorem foldl_concat (log : List Note) (e : EventBody) :
    (bodies log ++ [e]).foldl eventReducer initialReducerState =
      eventReducer (reduceLog initialReducerState log) e := by
  rw [List.foldl_append]
  rfl

theorem calm_step {s t : Session} {call : Call} (hkept : Kept runId s) (hmarked : Marked s)
    (hs : Calm s) (h : (sessionMachine G runId).step s call t) (hcall : ResumesInPlace s call) :
    Calm t := by
  rcases session_cases hkept h with
    ⟨env, input, hlast, -, rfl⟩ | ⟨env, stateUpdates, p, n, hlast, -, -, rfl⟩
  · refine ⟨?_, ?_⟩
    · rintro o ⟨⟩
      dsimp only
      rw [hmarked.fresh hlast, List.nil_append]
      exact callRests_runFrom (fun state _ => entering_started _ _ _)
    · dsimp only
      rw [bodies_append]
      refine resumesClear_runFrom.mpr ?_
      exact (resumesClear_concat _ _).mpr ⟨hs.resumes, False.elim⟩
  · have hrests := (hs.rests _ hlast).paused p rfl
    rw [hcall p hlast] at hrests
    refine ⟨?_, ?_⟩
    · rintro o ⟨⟩
      dsimp only
      rw [reduceLog_append]
      exact callRests_runFrom (fun state _ => entering_resumed hrests stateUpdates rfl)
    · dsimp only
      rw [bodies_append]
      refine resumesClear_runFrom.mpr ((resumesClear_concat _ _).mpr ⟨hs.resumes, fun _ m => ?_⟩)
      rw [foldl_concat]
      exact awaits_resumed hrests stateUpdates m

/-- A resume after which no node awaits one went on where the run had paused. -/
theorem resumesInPlace_of_clear {s t : Session} {call : Call} (hkept : Kept runId s)
    (hmarked : Marked s) (h : (sessionMachine G runId).step s call t)
    (hclear : ResumesClear (bodies t.log)) : ResumesInPlace s call := by
  intro q hq
  rcases session_cases hkept h with
    ⟨env, input, hlast, -, rfl⟩ | ⟨env, stateUpdates, p, n, hlast, -, -, rfl⟩
  · rw [hlast] at hq
    cases hq
  · obtain rfl : q = p := by
      rw [hlast] at hq
      cases hq
      rfl
    dsimp only at hclear
    rw [bodies_append] at hclear
    have hfirst := ((resumesClear_concat _ _).mp (resumesClear_runFrom.mp hclear)).2 trivial
    by_contra hne
    have hwaits := hfirst q.interruptedAt
    rw [foldl_concat, awaits_interruptResumed, if_neg (fun heq => hne heq.symm),
      (hmarked.paused q hlast).1] at hwaits
    cases hwaits

theorem kept_run {s t : Session} {calls : List Call} (h : Run (sessionMachine G runId) s calls t)
    (hkept : Kept runId s) (hmarked : Marked s) : Kept runId t ∧ Marked t :=
  h.invariant (I := fun s => Kept runId s ∧ Marked s)
    (fun _ _ _ hs hstep => ⟨kept_step hs.1 hstep, marked_step hs.1 hs.2 hstep⟩) ⟨hkept, hmarked⟩

theorem calm_run {s t : Session} {calls : List Call}
    (h : Run ((sessionMachine G runId).restrict ResumesInPlace) s calls t) (hkept : Kept runId s)
    (hmarked : Marked s) (hcalm : Calm s) : Calm t := by
  have hall : Kept runId t ∧ Marked t ∧ Calm t := by
    refine h.invariant (I := fun s => Kept runId s ∧ Marked s ∧ Calm s) ?_
      ⟨hkept, hmarked, hcalm⟩
    rintro s call t ⟨hkept, hmarked, hcalm⟩ ⟨hstep, hplace⟩
    exact ⟨kept_step hkept hstep, marked_step hkept hmarked hstep,
      calm_step hkept hmarked hcalm hstep hplace⟩
  exact hall.2.2

theorem resumesClear_back {s t : Session} {call : Call}
    (h : (sessionMachine G runId).step s call t) (ht : ResumesClear (bodies t.log)) :
    ResumesClear (bodies s.log) := by
  obtain ⟨-, rfl⟩ := h
  have hlog : ∃ log, (s.after G runId call).log = s.log ++ log := by
    unfold Session.after
    dsimp only
    split <;> exact ⟨_, rfl⟩
  obtain ⟨log, hlog⟩ := hlog
  rw [hlog, bodies_append] at ht
  exact fun pre e hpre => ht pre e (hpre.trans (List.prefix_append _ _))

/-- The resumes of a session clear exactly when each goes on in place. -/
theorem resumesClear_iff {s t : Session} {calls : List Call}
    (h : Run (sessionMachine G runId) s calls t) (hkept : Kept runId s) (hmarked : Marked s)
    (hcalm : Calm s) :
    ResumesClear (bodies t.log) ↔
      Run ((sessionMachine G runId).restrict ResumesInPlace) s calls t := by
  induction h with
  | stay s => exact ⟨fun _ => .stay s, fun _ => hcalm.resumes⟩
  | @step s u t call calls first rest ih =>
    have hu := ih (kept_step hkept first) (marked_step hkept hmarked first)
    constructor
    · intro hclear
      have hmiddle : ResumesClear (bodies u.log) :=
        rest.back (I := fun s => ResumesClear (bodies s.log))
          (fun _ _ _ => resumesClear_back) hclear
      have hplace := resumesInPlace_of_clear hkept hmarked first hmiddle
      exact .step ⟨first, hplace⟩ ((hu (calm_step hkept hmarked hcalm first hplace)).mp hclear)
    · intro hrun
      cases hrun with
      | step firstPlaced restPlaced =>
        obtain rfl := first.2.trans firstPlaced.1.2.symm
        exact (hu (calm_step hkept hmarked hcalm first firstPlaced.2)).mpr restPlaced

/-- The marks of a run that finished are right exactly when it did not fail, and each of its
resumes went on at the node at which it had paused. -/
theorem statuses_right_iff {calls : List Call} {s : Session}
    (h : Run (sessionMachine G runId) .new calls s) (hend : Finished s) :
    StatusesRight s ↔ (∃ state, s.last = some (.completed state)) ∧
      Run ((sessionMachine G runId).restrict ResumesInPlace) .new calls s := by
  obtain ⟨hkept, hmarked⟩ := kept_run h (kept_new runId) marked_new
  have hresumes := resumesClear_iff h (kept_new runId) marked_new calm_new
  constructor
  · intro hright
    refine ⟨?_, hresumes.mp (hkept.stored ▸ hright.resumes)⟩
    obtain ⟨o, ho, hpaused⟩ := hend
    cases o with
    | completed state => exact ⟨state, ho⟩
    | interrupted p => exact absurd rfl (hpaused p)
    | raised e =>
      have herror := hright.run.mpr ⟨e, ho⟩
      rw [shown_eq hkept] at herror
      exact absurd herror (hmarked.raised e ho)
  · rintro ⟨⟨state, hstate⟩, hrun⟩
    have hcalm := calm_run hrun (kept_new runId) marked_new calm_new
    have hcompleted := hmarked.completed state hstate
    refine ⟨?_, ?_, hkept.stored ▸ hresumes.mpr hrun⟩
    · rw [shown_eq hkept, hcompleted, hstate]
      simp
    · rw [shown_eq hkept]
      exact ((hcalm.rests _ hstate).completed state rfl).rests

/-- A run that pauses before a node, and is resumed to its end, is shown right. -/
theorem a_pause_before_is_shown_right : StatusesRight approved := by
  have hrun : Run ((sessionMachine twoSteps "run").restrict ResumesInPlace) .new
      [.run inOrder (plainInput .empty), .resume inOrder .empty] approved := by
    refine .step ⟨⟨.run _ _, rfl⟩, ?_⟩ (.step ⟨⟨.resume _ _ _, rfl⟩, ?_⟩ (.stay _))
    · rintro p ⟨⟩
    · rintro p ⟨⟩
      rfl
  have hlast : approved.last = some (.completed (Dict.ofList
      [("text", .str "a poem"), ("approved", .bool true)])) := rfl
  have hend : Finished approved := ⟨_, hlast, by rintro p ⟨⟩⟩
  exact (statuses_right_iff hrun.of_restrict hend).mpr ⟨⟨_, hlast⟩, hrun⟩

/-- Two steps, with a pause after the first one. -/
def pausingAfter : CompiledGraph := { twoSteps with
  nodes := Dict.ofList [
    ("draft", .function { pureNode "draft" id with interruptAfter := true }),
    ("review", .function (pureNode "review" id))] }

def reviewed : Session :=
  (Session.new.after pausingAfter "run" (.run inOrder (plainInput .empty))).after pausingAfter "run"
    (.resume inOrder .empty)

/-- A failed run is shown as completed. After a pause after a node the run completes, and
the node still waits. -/
theorem the_marks_can_be_wrong :
    (Run (sessionMachine raising "run") .new
        [.run inOrder (plainInput (Dict.ofList [("topic", .str "a")]))] failed ∧
      Finished failed ∧ (shown failed).metrics.status = .completed ∧ ¬StatusesRight failed) ∧
    (Run (sessionMachine pausingAfter "run") .new
        [.run inOrder (plainInput .empty), .resume inOrder .empty] reviewed ∧
      Finished reviewed ∧ (shown reviewed).nodeStatuses.get? "draft" = some .waiting ∧
      ¬StatusesRight reviewed) := by
  have hcompleted : (shown failed).metrics.status = .completed := rfl
  obtain ⟨e, hfailed⟩ : ∃ e, failed.last = some (.raised e) := ⟨_, rfl⟩
  have hwaiting : (shown reviewed).nodeStatuses.get? "draft" = some .waiting := rfl
  refine ⟨⟨.step ⟨.run _ _, rfl⟩ (.stay _), ⟨_, hfailed, by rintro p ⟨⟩⟩, hcompleted, ?_⟩,
    .step ⟨.run _ _, rfl⟩ (.step ⟨.resume _ _ _, rfl⟩ (.stay _)), ⟨_, rfl, by rintro p ⟨⟩⟩,
    hwaiting, ?_⟩
  · intro h
    have herror := h.run.mpr ⟨_, hfailed⟩
    rw [hcompleted] at herror
    cases herror
  · intro h
    exact (h.rests "draft").waiting hwaiting

end orchestra.node_statuses
