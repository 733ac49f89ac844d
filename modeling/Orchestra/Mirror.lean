-- The two projections of a run. The page folds its reducer over the events
-- (`projectState.ts`) and the server folds `project_state`. They read all kinds of
-- events alike but two: the page also takes the final state of a call and the
-- updates of a resume.
import Orchestra.Coding
import Orchestra.Projection
import Orchestra.RunStore

open dicts logged machine orchestra.state orchestra.edges orchestra.events orchestra.nodes
open orchestra.compiled orchestra.turns orchestra.runs orchestra.sessions orchestra.run_store
open orchestra.coding orchestra.projection

namespace orchestra.mirror

/-! ## The projection of the page -/

def sliceUpTo (events : List WorkflowEvent) : Option Int → List WorkflowEvent
  | none => events
  | some upToSequence => events.filter (fun e => e.sequence ≤ upToSequence)

def fold (events : List WorkflowEvent) (upToSequence : Option Int) : ReducerState :=
  reduceAll initialReducerState (sliceUpTo events upToSequence)

/-- `projectState` of the page. -/
def shownState (events : List WorkflowEvent) (upToSequence : Option Int) : PyDict :=
  (fold events upToSequence).currentState

/-- `project_state(events)` of the server. -/
def storedState (events : List WorkflowEvent) : PyDict :=
  projectState (events.map (·.body)) .empty

/-- The page shows the state of the server after each prefix of the events. -/
def Mirrored (events : List WorkflowEvent) : Prop :=
  ∀ pre, pre <+: events → SameState (shownState pre none) (storedState pre)

/-! ## One event -/

/-- The event makes of the state `d` the same on both sides. -/
def Harmless (d : PyDict) : EventBody → Prop
  | .executionCompleted finalState .. => SameState finalState d
  | .interruptResumed _ stateModifications => SameState (d.update stateModifications) d
  | _ => True

theorem same_eventReducer_iff {s : ReducerState} {d : PyDict} (h : SameState s.currentState d)
    (e : EventBody) :
    SameState (eventReducer s e).currentState (projectEvent false d e) ↔ Harmless d e := by
  cases e with
  | executionCompleted finalState totalTokens totalCostUsd status => exact Iff.rfl
  | interruptResumed nodeId stateModifications =>
    have hupdate := h.update stateModifications
    constructor
    · intro hsame
      exact hupdate.symm.trans hsame
    · intro hsame
      exact hupdate.trans hsame
  | executionStarted workflowName initialState entryPoint =>
    exact iff_of_true (SameState.refl _) trivial
  | checkpointCreated checkpointId nodeId snapshot => exact iff_of_true (SameState.refl _) trivial
  | nodeCompleted nodeId nodeType stateUpdate => exact iff_of_true (h.update _) trivial
  | stateUpdated nodeId fieldUpdates resultingState =>
    refine iff_of_true ?_ trivial
    simp only [eventReducer, projectEvent]
    split
    · exact h.update fieldUpdates
    · exact SameState.refl _
  | agent nodeId e => cases e <;> exact iff_of_true h trivial
  | _ => exact iff_of_true h trivial

/-! ## The events of a run -/

theorem shownState_concat (events : List WorkflowEvent) (e : WorkflowEvent) :
    shownState (events ++ [e]) none =
      (eventReducer (fold events none) e.body).currentState := by
  unfold shownState fold sliceUpTo
  rw [reduceAll_append]
  rfl

theorem storedState_concat (events : List WorkflowEvent) (e : WorkflowEvent) :
    storedState (events ++ [e]) = projectEvent false (storedState events) e.body := by
  unfold storedState projectState
  rw [List.map_append, List.foldl_append]
  rfl

theorem mirrored_nil : Mirrored [] := by
  intro pre hpre
  rw [List.prefix_nil.mp hpre]
  exact SameState.refl _

theorem mirrored_concat (events : List WorkflowEvent) (e : WorkflowEvent) :
    Mirrored (events ++ [e]) ↔ Mirrored events ∧ Harmless (storedState events) e.body := by
  have hlast : Mirrored events →
      (SameState (shownState (events ++ [e]) none) (storedState (events ++ [e])) ↔
        Harmless (storedState events) e.body) := by
    intro h
    rw [shownState_concat, storedState_concat]
    exact same_eventReducer_iff (h events (List.prefix_refl _)) e.body
  constructor
  · intro h
    have hevents : Mirrored events := fun pre hpre => h pre (hpre.trans (List.prefix_append _ _))
    exact ⟨hevents, (hlast hevents).mp (h _ (List.prefix_refl _))⟩
  · rintro ⟨hevents, he⟩ pre hpre
    rcases List.prefix_concat_iff.mp hpre with rfl | hpre
    · exact (hlast hevents).mpr he
    · exact hevents pre hpre

/-- Each event of the list, at the state of the server before it. -/
def AllHarmless (d : PyDict) : List EventBody → Prop
  | [] => True
  | e :: rest => Harmless d e ∧ AllHarmless (projectEvent false d e) rest

theorem mirrored_append (events new : List WorkflowEvent) :
    Mirrored (events ++ new) ↔
      Mirrored events ∧ AllHarmless (storedState events) (new.map (·.body)) := by
  induction new generalizing events with
  | nil => simp [AllHarmless]
  | cons e rest ih =>
    rw [List.append_cons, ih, mirrored_concat, storedState_concat, and_assoc]
    rfl

theorem allHarmless_append (d : PyDict) (xs ys : List EventBody) :
    AllHarmless d (xs ++ ys) ↔
      AllHarmless d xs ∧ AllHarmless (xs.foldl (projectEvent false) d) ys := by
  induction xs generalizing d with
  | nil => simp [AllHarmless]
  | cons e rest ih =>
    rw [List.cons_append, List.foldl_cons]
    simp only [AllHarmless]
    rw [ih, and_assoc]

/-! ## What a run has written -/

/-- The initial state of a run, and the updates of its nodes over it. -/
def writeEvent (d : PyDict) : EventBody → PyDict
  | .executionStarted _ initialState _ => initialState
  | .nodeCompleted _ _ stateUpdate => d.update stateUpdate
  | _ => d

def written (d : PyDict) (events : List EventBody) : PyDict := events.foldl writeEvent d

/-- The events that the engine does not emit. -/
def Foreign : EventBody → Prop
  | .stateUpdated .. | .checkpointCreated .. => True
  | _ => False

theorem projectEvent_eq_writeEvent (d : PyDict) {e : EventBody} (h : ¬Foreign e) :
    projectEvent false d e = writeEvent d e := by
  cases e with
  | stateUpdated nodeId fieldUpdates resultingState => exact (h trivial).elim
  | checkpointCreated checkpointId nodeId snapshot => exact (h trivial).elim
  | _ => rfl

theorem project_eq_written (d : PyDict) {events : List EventBody}
    (h : ∀ e ∈ events, ¬Foreign e) : events.foldl (projectEvent false) d = written d events := by
  unfold written
  induction events generalizing d with
  | nil => rfl
  | cons e rest ih =>
    rw [List.foldl_cons, List.foldl_cons, projectEvent_eq_writeEvent d (h e (by simp)),
      ih _ (fun e' he => h e' (by simp [he]))]

/-! ## The events of a call -/

theorem not_foreign_of_callBody {e : EventBody} (h : CallBody e) : ¬Foreign e := by
  cases e <;> first | exact id | exact absurd h id

theorem not_foreign_of_loopBody {e : EventBody} (h : LoopBody e) : ¬Foreign e :=
  not_foreign_of_callBody (callBody_of_loopBody h)

theorem harmless_of_loopBody (d : PyDict) {e : EventBody} (h : LoopBody e) : Harmless d e := by
  cases e <;> trivial

theorem allHarmless_of_loopBody (d : PyDict) {events : List EventBody}
    (h : ∀ e ∈ events, LoopBody e) : AllHarmless d events := by
  induction events generalizing d with
  | nil => trivial
  | cons e rest ih =>
    exact ⟨harmless_of_loopBody d (h e (by simp)), ih _ (fun e' he => h e' (by simp [he]))⟩

/-- A run of the loop over the state `d` ends in what its nodes wrote over it, and one that
fails has nothing written. -/
def EndsAsWritten (d : PyDict) (r : LoopRun) : Prop :=
  match r.ending with
  | .completed state => SameState state (written d (bodies r.log))
  | .interrupted _ => True
  | .failed .. => SameState .empty (written d (bodies r.log))

theorem allHarmless_finish_iff {env : Env} {metered : Bool} {before : List Note} {r : LoopRun}
    (hloop : ∀ n ∈ r.log, LoopNote n) (d : PyDict) :
    AllHarmless d (bodies (finish env metered before r).log) ↔
      AllHarmless d (bodies before) ∧
        EndsAsWritten ((bodies before).foldl (projectEvent false) d) r := by
  have hbodies : ∀ e ∈ bodies r.log, LoopBody e := fun e he => loopBody_of_mem hloop he
  have hwritten := fun d => project_eq_written d
    (fun e he => not_foreign_of_loopBody (hbodies e he))
  have hharmless := fun d => allHarmless_of_loopBody d hbodies
  unfold EndsAsWritten
  rcases he : r.ending with state | p | ⟨nodeId, e⟩
  all_goals
    simp only [finish, he, bodies_append, allHarmless_append, hharmless, and_true,
      List.foldl_append, hwritten]
  · refine and_congr_right (fun _ => ?_)
    exact ⟨fun h => h.1, fun h => ⟨h, trivial⟩⟩
  · refine and_congr_right (fun _ => ?_)
    exact ⟨fun h => h.2.1, fun h => ⟨trivial, h, trivial⟩⟩

theorem allHarmless_runFrom_iff {G : CompiledGraph} {env : Env} {metered : Bool}
    {before : List Note} {stateDict : PyDict} {start : WorkflowState G.schema → Loop G.schema}
    (d : PyDict) :
    AllHarmless d (bodies (runFrom G env metered before stateDict start).log) ↔
      AllHarmless d (bodies before) ∧ ∀ state, WorkflowState.ofDict G.schema stateDict = .ok state →
        EndsAsWritten ((bodies before).foldl (projectEvent false) d)
          (runLoop G env (start state)) := by
  unfold runFrom
  rcases hstate : WorkflowState.ofDict G.schema stateDict with e | state
  · simp
  · simp only [Except.ok.injEq, forall_eq']
    exact allHarmless_finish_iff (loopNotes_runLoop env (start state)) d

/-! ## The calls on a run -/

/-- Any call on the run, at any time. -/
def callMachine (G : CompiledGraph) (runId : String) : Machine Session Call where
  init s := s = .new
  step s call t := t = s.after G runId call

/-- The events that a call adds to the store. -/
def newEvents (G : CompiledGraph) (runId : String) (s : Session) : Call → List EventBody
  | .run env input => bodies (firstRun G runId env input).log
  | .resume env stateUpdates =>
    match s.record.latestCheckpoint with
    | none => []
    | some cp => bodies (resume G env stateUpdates cp).log
  | .fork env sequenceNumber stateOverrides newRunId =>
    match (fork G env s.record runId sequenceNumber stateOverrides newRunId).result with
    | .error _ => []
    | .ok _ => [.forkCreated runId sequenceNumber newRunId]

theorem events_after (G : CompiledGraph) (runId : String) (s : Session) (call : Call) :
    ∃ new, (s.after G runId call).record.events = s.record.events ++ new ∧
      new.map (·.body) = newEvents G runId s call := by
  cases call with
  | run env input =>
    exact ⟨_, RunRecord.events_publish .., EventBus.bodies_emitAll ..⟩
  | resume env stateUpdates =>
    unfold Session.after Call.exec newEvents
    rcases s.record.latestCheckpoint with _ | cp
    · exact ⟨[], by simp⟩
    · exact ⟨_, RunRecord.events_publish .., EventBus.bodies_emitAll ..⟩
  | fork env sequenceNumber stateOverrides newRunId =>
    simp only [Session.after, Call.exec, newEvents]
    rcases (fork G env s.record runId sequenceNumber stateOverrides newRunId).result with e | p
    · exact ⟨[], by simp⟩
    · exact ⟨[forkEvent runId sequenceNumber newRunId], rfl, rfl⟩

/-- What the run has written at this point of the session. -/
def writtenSoFar (s : Session) : PyDict := written .empty (stored s.record)

/-- The call ends in what its nodes wrote over the state, and the updates of a resume
stand in that state already. -/
def CallMirrors (G : CompiledGraph) (runId : String) (s : Session) : Call → Prop
  | .run env input => ∀ state, WorkflowState.ofDict G.schema input.initialState = .ok state →
    EndsAsWritten input.initialState
      (runLoop G env (runStart G { input with context := { input.context with runId } } state))
  | .resume env stateUpdates => ∀ cp, s.record.latestCheckpoint = some cp →
    SameState ((writtenSoFar s).update stateUpdates) (writtenSoFar s) ∧
      ∀ state, WorkflowState.ofDict G.schema (cp.state.update stateUpdates) = .ok state →
        EndsAsWritten (writtenSoFar s) (runLoop G env (resumeStart G cp state))
  | .fork .. => True

theorem allHarmless_newEvents_iff {G : CompiledGraph} {runId : String} (s : Session)
    (call : Call) :
    AllHarmless (writtenSoFar s) (newEvents G runId s call) ↔ CallMirrors G runId s call := by
  cases call with
  | run env input =>
    unfold newEvents firstRun run
    rw [allHarmless_runFrom_iff]
    exact ⟨fun h => h.2, fun h => ⟨⟨trivial, trivial⟩, h⟩⟩
  | resume env stateUpdates =>
    unfold newEvents CallMirrors
    rcases s.record.latestCheckpoint with _ | cp
    · simp [AllHarmless]
    · simp only [Option.some.injEq, forall_eq']
      unfold resume
      rw [allHarmless_runFrom_iff]
      exact and_congr_left (fun _ => ⟨fun h => h.1, fun h => ⟨h, trivial⟩⟩)
  | fork env sequenceNumber stateOverrides newRunId =>
    refine iff_of_true ?_ trivial
    unfold newEvents
    dsimp only
    split
    · trivial
    · exact ⟨trivial, trivial⟩

theorem not_foreign_runFrom {G : CompiledGraph} {env : Env} {metered : Bool}
    {before : List Note} {stateDict : PyDict} {start : WorkflowState G.schema → Loop G.schema}
    (hbefore : ∀ e ∈ bodies before, ¬Foreign e) :
    ∀ e ∈ bodies (runFrom G env metered before stateDict start).log, ¬Foreign e := by
  obtain ⟨rest, hrest, hcall⟩ := bodies_runFrom G env metered before stateDict start
  rw [hrest]
  intro e he
  rcases List.mem_append.mp he with he | he
  · exact hbefore e he
  · exact not_foreign_of_callBody (hcall e he)

theorem not_foreign_newEvents (G : CompiledGraph) (runId : String) (s : Session) (call : Call) :
    ∀ e ∈ newEvents G runId s call, ¬Foreign e := by
  cases call with
  | run env input =>
    refine not_foreign_runFrom (fun e he => ?_)
    rw [List.mem_singleton.mp he]
    exact id
  | resume env stateUpdates =>
    unfold newEvents
    dsimp only
    split
    · simp
    · refine not_foreign_runFrom (fun e he => ?_)
      rw [List.mem_singleton.mp he]
      exact id
  | fork env sequenceNumber stateOverrides newRunId =>
    unfold newEvents
    dsimp only
    split
    · simp
    · intro e he
      rw [List.mem_singleton.mp he]
      exact id

/-- The session so far is mirrored, by events of the engine. -/
structure MirroredSoFar (s : Session) : Prop where
  mirrored : Mirrored s.record.events
  native : ∀ e ∈ stored s.record, ¬Foreign e

theorem mirroredSoFar_new : MirroredSoFar .new :=
  ⟨mirrored_nil, by simp [Session.new, stored, RunRecord.empty]⟩

theorem native_step {G : CompiledGraph} {runId : String} {s t : Session} {call : Call}
    (hs : ∀ e ∈ stored s.record, ¬Foreign e) (h : (callMachine G runId).step s call t) :
    ∀ e ∈ stored t.record, ¬Foreign e := by
  obtain rfl := h
  obtain ⟨new, hevents, hnew⟩ := events_after G runId s call
  intro e he
  unfold stored at he
  rw [hevents, List.map_append, hnew] at he
  rcases List.mem_append.mp he with he | he
  · exact hs e he
  · exact not_foreign_newEvents G runId s call e he

theorem mirroredSoFar_step {G : CompiledGraph} {runId : String} {s t : Session} {call : Call}
    (hs : MirroredSoFar s) (h : (callMachine G runId).step s call t) :
    MirroredSoFar t ↔ CallMirrors G runId s call := by
  have hnative := native_step hs.native h
  obtain rfl := h
  obtain ⟨new, hevents, hnew⟩ := events_after G runId s call
  have hstate : storedState s.record.events = writtenSoFar s :=
    project_eq_written .empty hs.native
  have hmirrored : Mirrored (s.after G runId call).record.events ↔ CallMirrors G runId s call := by
    rw [hevents, mirrored_append, hnew, hstate, allHarmless_newEvents_iff]
    simp [hs.mirrored]
  exact ⟨fun ht => hmirrored.mp ht.mirrored, fun hcall => ⟨hmirrored.mpr hcall, hnative⟩⟩

theorem mirroredSoFar_back {G : CompiledGraph} {runId : String} {s t : Session} {call : Call}
    (h : (callMachine G runId).step s call t) (ht : MirroredSoFar t) : MirroredSoFar s := by
  obtain rfl := h
  obtain ⟨new, hevents, -⟩ := events_after G runId s call
  have hmirrored := ht.mirrored
  have hnative := ht.native
  unfold stored at hnative
  rw [hevents] at hmirrored hnative
  rw [mirrored_append] at hmirrored
  refine ⟨hmirrored.1, fun e he => hnative e ?_⟩
  rw [List.map_append]
  exact List.mem_append_left _ he

/-- The page shows the state of the server after every prefix of the events of a run exactly
when each call on the run mirrors. -/
theorem page_mirrors_server_iff {G : CompiledGraph} {runId : String} {calls : List Call}
    {s : Session} (h : Run (callMachine G runId) .new calls s) :
    Mirrored s.record.events ↔
      Run ((callMachine G runId).restrict (CallMirrors G runId)) .new calls s := by
  have hdet : ∀ (s : Session) call t u, (callMachine G runId).step s call t →
      (callMachine G runId).step s call u → t = u := fun s call t u ht hu => ht.trans hu.symm
  have hnative : ∀ e ∈ stored s.record, ¬Foreign e :=
    h.invariant (I := fun s => ∀ e ∈ stored s.record, ¬Foreign e)
      (fun _ _ _ hs hstep => native_step hs hstep) mirroredSoFar_new.native
  rw [← h.kept_iff hdet (fun _ _ _ => mirroredSoFar_back) (fun _ _ _ => mirroredSoFar_step)
    mirroredSoFar_new]
  exact ⟨fun hm => ⟨hm, hnative⟩, fun hm => hm.mirrored⟩

/-! ## Calls that mirror -/

theorem map_withDefaults {G : CompiledGraph} {events : List EventBody}
    (h : ∀ e ∈ events, LoopBody e) : events.map (withDefaults G) = events := by
  rw [List.map_congr_left (g := id), List.map_id]
  intro e he
  have hbody := h e he
  cases e <;> first | rfl | exact hbody.elim

/-- A run of the loop ends as written when each update is written over the state and no
way out changes it. -/
theorem endsAsWritten_of_replays {G : CompiledGraph} {env : Env} {L : Loop G.schema}
    (hL : LoopReplays G env L) (hend : ∀ nodeId e, (runLoop G env L).ending ≠ .failed nodeId e) :
    EndsAsWritten L.state.data (runLoop G env L) := by
  have hsettled : complete G L.state.data = L.state.data :=
    (complete_of_ofDict (WorkflowState.ofDict_data L.state)).symm
  have hempty : Follows G [] .empty := by
    refine ⟨rfl, rfl, ?_⟩
    intro pre d post h
    cases pre <;> cases h
  have hstart := follows_started hempty (plainInput L.state.data)
  have hdata : complete G (plainInput L.state.data).initialState = L.state.data := hsettled
  rw [hdata] at hstart
  obtain ⟨d, hfollows, hcompleted⟩ := follows_runLoop hstart hL
  have hloop : ∀ e ∈ bodies (runLoop G env L).log, LoopBody e := fun e he =>
    loopBody_of_mem (loopNotes_runLoop env L) he
  have hwritten : written L.state.data (bodies (runLoop G env L).log) = d := by
    have hprojected := hfollows.projected
    unfold projected projectState at hprojected
    rw [bodies_append, List.map_append, map_withDefaults hloop, List.foldl_append] at hprojected
    rw [← project_eq_written _ (fun e he => not_foreign_of_loopBody (hloop e he)), ← hprojected]
    conv_lhs => rw [← hsettled]
    rfl
  unfold EndsAsWritten
  rcases hending : (runLoop G env L).ending with state | p | ⟨nodeId, e⟩
  · rw [hwritten, hcompleted state hending]
    exact SameState.refl _
  · trivial
  · exact absurd hending (hend nodeId e)

/-- A call of `run` mirrors when the class adds nothing to its state, each turn writes its
update over the state and the run does not fail. -/
theorem callMirrors_run {G : CompiledGraph} {runId : String} {env : Env} {input : RunInput}
    (s : Session)
    (h : ∀ state, WorkflowState.ofDict G.schema input.initialState = .ok state →
      let L := runStart G { input with context := { input.context with runId } } state
      state.data = input.initialState ∧ LoopReplays G env L ∧
        ∀ nodeId e, (runLoop G env L).ending ≠ .failed nodeId e) :
    CallMirrors G runId s (.run env input) := by
  intro state hstate
  obtain ⟨hdata, hreplays, hend⟩ := h state hstate
  rw [← hdata]
  exact endsAsWritten_of_replays hreplays hend

/-- So does a resume without updates from the state that is written. -/
theorem callMirrors_resume {G : CompiledGraph} {runId : String} {env : Env} {s : Session}
    (h : ∀ cp, s.record.latestCheckpoint = some cp →
      ∀ state, WorkflowState.ofDict G.schema cp.state = .ok state →
        state.data = writtenSoFar s ∧ LoopReplays G env (resumeStart G cp state) ∧
          ∀ nodeId e, (runLoop G env (resumeStart G cp state)).ending ≠ .failed nodeId e) :
    CallMirrors G runId s (.resume env .empty) := by
  intro cp hcp
  refine ⟨SameState.refl _, fun state hstate => ?_⟩
  obtain ⟨hdata, hreplays, hend⟩ := h cp hcp state hstate
  rw [← hdata]
  exact endsAsWritten_of_replays hreplays hend

/-- A run that pauses, and is resumed to its end, is mirrored. -/
theorem a_pause_is_mirrored : Mirrored approved.record.events := by
  have hrun : Run ((callMachine twoSteps "run").restrict (CallMirrors twoSteps "run")) .new
      [.run inOrder (plainInput .empty), .resume inOrder .empty] approved := by
    refine .step ⟨rfl, ?_⟩ (.step ⟨rfl, ?_⟩ (.stay _))
    · rintro state ⟨⟩
      trivial
    · rintro cp ⟨⟩
      refine ⟨SameState.refl _, ?_⟩
      rintro state ⟨⟩
      exact SameState.refl _
  exact (page_mirrors_server_iff hrun.of_restrict).mpr hrun

/-- One node, which raises. -/
def raising : CompiledGraph where
  nodes := Dict.ofList [
    ("draft", .function { pureNode "draft" id with
      func := fun _ _ => .error ⟨"ValueError", "no draft", false⟩ })]
  edges := [.plain "draft" .END]
  entryPoint := "draft"
  schema := none
  maxTurns := 50
  name := ""
  handoffEdges := []

def failed : Session :=
  Session.new.after raising "run" (.run inOrder (plainInput (Dict.ofList [("topic", .str "a")])))

/-- After the failure the page shows nothing, and the server the state of the run. -/
theorem a_failure_is_not_mirrored :
    Run (callMachine raising "run") .new
      [.run inOrder (plainInput (Dict.ofList [("topic", .str "a")]))] failed ∧
    ¬Mirrored failed.record.events := by
  refine ⟨.step rfl (.stay _), fun h => ?_⟩
  have hshown : shownState failed.record.events none = .empty := rfl
  have hstored : storedState failed.record.events = Dict.ofList [("topic", .str "a")] := rfl
  have hsame := h _ (List.prefix_refl _)
  rw [hshown, hstored] at hsame
  have htopic := sameState_iff.mp hsame "topic"
  cases htopic

end orchestra.mirror
