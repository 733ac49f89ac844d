-- The law of event sourcing. `project_state` writes every stored update over
-- the state. So it follows the engine as long as the engine does nothing else:
-- no reducer, no merge, no handoff, no update at a resume.
import Orchestra.Sessions

open dicts logged machine orchestra.state orchestra.edges orchestra.events orchestra.nodes
open orchestra.compiled orchestra.turns orchestra.runs orchestra.sessions

namespace orchestra.projection

variable {G : CompiledGraph} {env : Env}

/-! ## The projection of a log -/

/-- The initial state with the defaults of the class. -/
def complete (G : CompiledGraph) (d : PyDict) : PyDict :=
  match G.schema with
  | none => d
  | some S =>
    match S.validate d with
    | .ok s => s
    | .error _ => d

/-- The defaults count as part of the initial state. -/
def withDefaults (G : CompiledGraph) : EventBody → EventBody
  | .executionStarted name initialState entryPoint =>
    .executionStarted name (complete G initialState) entryPoint
  | body => body

def projected (G : CompiledGraph) (events : List EventBody) : PyDict :=
  projectState (events.map (withDefaults G)) .empty

/-- One note, as the projection reads it. -/
def projectNote (G : CompiledGraph) (d : PyDict) : Note → PyDict
  | .emit e => projectEvent false d (withDefaults G e.body)
  | _ => d

/-- One note, as it tells what the engine holds. -/
def heldNote (G : CompiledGraph) (d : PyDict) : Note → PyDict
  | .emit e =>
    match e.body with
    | .executionStarted _ initialState _ => complete G initialState
    | _ => d
  | .holds state => state
  | _ => d

/-- The state that the engine held last. -/
def lastHeld (G : CompiledGraph) (log : List Note) : PyDict := log.foldl (heldNote G) .empty

theorem projected_bodies (G : CompiledGraph) (log : List Note) :
    projected G (bodies log) = log.foldl (projectNote G) .empty := by
  have h : ∀ d, ((bodies log).map (withDefaults G)).foldl (projectEvent false) d =
      log.foldl (projectNote G) d := by
    induction log with
    | nil => intro d; rfl
    | cons n rest ih =>
      intro d
      cases n with
      | emit e => exact ih _
      | ran nodeId => exact ih d
      | built keys => exact ih d
      | holds state => exact ih d
  exact h .empty

/-! ## Notes that change nothing -/

/-- A note that neither the projection nor the engine's state depends on. -/
structure Still (G : CompiledGraph) (n : Note) : Prop where
  projects : ∀ d, projectNote G d n = d
  holds : ∀ d, heldNote G d n = d
  silent : ∀ d, n ≠ .holds d

theorem still_of_quiet {n : Note} (h : Quiet n) : Still G n := by
  cases n with
  | emit e =>
    obtain ⟨body, numbered⟩ := e
    cases body <;> first
      | exact h.elim
      | exact ⟨fun _ => rfl, fun _ => rfl, by rintro d ⟨⟩⟩
  | ran nodeId => exact ⟨fun _ => rfl, fun _ => rfl, by rintro d ⟨⟩⟩
  | built keys => exact ⟨fun _ => rfl, fun _ => rfl, by rintro d ⟨⟩⟩
  | holds state => exact h.elim

/-- The events of the engine that carry no state for the projection. -/
def Framing : EventBody → Prop
  | .executionCompleted .. | .nodeStarted .. | .errorOccurred .. | .interruptRequested ..
  | .interruptResumed .. => True
  | _ => False

theorem still_framing (G : CompiledGraph) (body : EventBody) (h : Framing body) (numbered : Bool) :
    Still G (.emit ⟨body, numbered⟩) := by
  cases body <;> first
    | exact h.elim
    | exact ⟨fun _ => rfl, fun _ => rfl, by rintro d ⟨⟩⟩

/-! ## A log that the projection follows -/

/-- At every note of what the engine holds, the projection has the same. -/
def HeldRight (G : CompiledGraph) (log : List Note) : Prop :=
  ∀ pre d post, log = pre ++ .holds d :: post → projected G (bodies pre) = d

/-- The projection followed the engine through the log, up to the state `d`. -/
structure Follows (G : CompiledGraph) (log : List Note) (d : PyDict) : Prop where
  projected : projected G (bodies log) = d
  held : lastHeld G log = d
  right : HeldRight G log

/-- Where a note of what the engine holds can stand in a log with one more
note at its end. -/
theorem holds_concat {log pre post : List Note} {n : Note} {d : PyDict}
    (h : log ++ [n] = pre ++ .holds d :: post) :
    (∃ post', log = pre ++ .holds d :: post') ∨ (pre = log ∧ n = .holds d) := by
  rcases List.eq_nil_or_concat' post with rfl | ⟨init, m, rfl⟩
  · obtain ⟨h1, h2⟩ := List.append_inj' h rfl
    exact Or.inr ⟨h1.symm, by simpa using h2⟩
  · rw [← List.cons_append, ← List.append_assoc] at h
    obtain ⟨h1, -⟩ := List.append_inj' h rfl
    exact Or.inl ⟨init, h1⟩

theorem follows_note {log : List Note} {d : PyDict} (h : Follows G log d) {n : Note}
    (hn : Still G n) : Follows G (log ++ [n]) d := by
  refine ⟨?_, ?_, ?_⟩
  · rw [projected_bodies, List.foldl_append, ← projected_bodies, h.projected]
    exact hn.projects d
  · unfold lastHeld
    rw [List.foldl_append]
    have hd := h.held
    unfold lastHeld at hd
    rw [hd]
    exact hn.holds d
  · intro pre e post heq
    rcases holds_concat heq with ⟨post', hpost⟩ | ⟨-, hlast⟩
    · exact h.right pre e post' hpost
    · exact absurd hlast (hn.silent e)

theorem follows_still {log l : List Note} {d : PyDict} (h : Follows G log d)
    (hl : ∀ n ∈ l, Still G n) : Follows G (log ++ l) d := by
  induction l generalizing log with
  | nil => rwa [List.append_nil]
  | cons n rest ih =>
    have := ih (follows_note h (hl n (by simp))) (fun m hm => hl m (by simp [hm]))
    rwa [List.append_assoc, List.singleton_append] at this

/-- A completed node: the projection writes the update over its state, and the
engine holds the same. -/
theorem follows_completed {log : List Note} {d d' : PyDict} (h : Follows G log d)
    (nodeId nodeType : String) {update : PyDict} (hu : d' = d.update update) :
    Follows G (log ++ [.emit ⟨.nodeCompleted nodeId nodeType update, true⟩, .holds d']) d' := by
  have hproj : projected G
      (bodies (log ++ [.emit ⟨.nodeCompleted nodeId nodeType update, true⟩])) = d' := by
    rw [projected_bodies, List.foldl_append, ← projected_bodies, h.projected, hu]
    rfl
  have hsplit : log ++ [.emit ⟨.nodeCompleted nodeId nodeType update, true⟩, .holds d'] =
      (log ++ [.emit ⟨.nodeCompleted nodeId nodeType update, true⟩]) ++ [.holds d'] := by simp
  rw [hsplit]
  refine ⟨?_, ?_, ?_⟩
  · rw [projected_bodies, List.foldl_append, ← projected_bodies, hproj]
    rfl
  · unfold lastHeld
    rw [List.foldl_append]
    rfl
  · intro pre e post heq
    rcases holds_concat heq with ⟨post', hpost⟩ | ⟨rfl, hlast⟩
    · rcases holds_concat hpost with ⟨post'', hpost'⟩ | ⟨-, hlast⟩
      · exact h.right pre e post'' hpost'
      · cases hlast
    · cases hlast
      exact hproj

/-! ## An update that is written over the state -/

/-- No reducer of the class makes of an entry something else than its value. -/
def NotReduced (S : Schema) (d : PyDict) (entries : List (String × Value)) : Prop :=
  ∀ e ∈ entries, ∀ r old w, S.reducers.get? e.1 = some r → d.get? e.1 = some old →
    r.reduce old e.2 = .ok w → w = e.2

/-- No reducer takes part in the update, and the class takes its result as it is. -/
def Overwrites (schema : Option Schema) (d update : PyDict) : Prop :=
  ∀ S ∈ schema, NotReduced S d update.entries ∧
    ∀ s, S.validate (d.update update) = .ok s → s = d.update update

theorem updateFields_overwrites {S : Schema} {d new s : PyDict} {entries : List (String × Value)}
    (h : NotReduced S d entries) (hs : updateFields S d entries new = .ok s) :
    s = new.setAll entries := by
  induction entries generalizing new with
  | nil =>
    cases hs
    rfl
  | cons e rest ih =>
    obtain ⟨key, value⟩ := e
    have hrest : NotReduced S d rest := fun e he => h e (List.mem_cons_of_mem _ he)
    unfold updateFields at hs
    split at hs
    · cases hs
    · rename_i old hold
      split at hs
      · exact ih hrest hs
      · rename_i r hr
        split at hs
        · rename_i w hw
          have hvalue := h (key, value) (by simp) r old w hr hold hw
          subst hvalue
          exact ih hrest hs
        · cases hs

theorem apply_overwrites {state s : WorkflowState G.schema} {update : PyDict}
    (h : Overwrites G.schema state.data update) (hs : state.apply update = .ok s) :
    s.data = state.data.update update := by
  rcases G with ⟨nodes, edges, entryPoint, schema, maxTurns, name, handoffEdges⟩
  cases schema with
  | none =>
    cases hs
    rfl
  | some S =>
    obtain ⟨hreduced, hvalid⟩ := h S rfl
    simp only [WorkflowState.apply] at hs
    split at hs
    · rename_i d hd
      cases hs
      unfold applyStateUpdate at hd
      split at hd
      · rename_i new hnew
        rw [updateFields_overwrites hreduced hnew] at hd
        unfold validateState at hd
        split at hd
        · rename_i d' hd'
          cases hd
          exact hvalid d hd'
        · cases hd
      · cases hd
    · cases hs

theorem applyAny_overwrites {state s : WorkflowState G.schema} {update : PyDict}
    (h : Overwrites G.schema state.data update) (hs : state.applyAny update = .ok s) :
    s.data = state.data.update update := by
  unfold WorkflowState.applyAny at hs
  split at hs
  · rename_i hempty
    cases hs
    have : update = .empty := Dict.ext_entries (List.isEmpty_iff.mp hempty)
    rw [this, Dict.update_empty]
  · exact apply_overwrites h hs

/-! ## One turn -/

/-- What the projection needs of the turn at `L`: the update of the node is
written over the state, and the way out keeps it. A pause after the node drops
what the way out does, so nothing is asked of it there. -/
structure TurnReplays (G : CompiledGraph) (L : Loop G.schema) : Prop where
  overwrites : ∀ node update mode log, G.nodes.get? L.current.text = some node →
    executeNode G.schema L.current.text node L.state.data L.enter = ⟨log, .ok (update, mode)⟩ →
    Overwrites G.schema L.state.data update
  keeps : ∀ node log state ctx, G.nodes.get? L.current.text = some node →
    node.interruptAfter = false →
    completeNode L.current.text node L.state L.enter = ⟨log, .ok (state, ctx)⟩ →
    ExitKeeps G ctx L.current.text state

theorem follows_completeNode {L : Loop G.schema} {node : GraphNode} {pre log : List Note}
    {state : WorkflowState G.schema} {ctx : Ctx} (h : Follows G pre L.state.data)
    (hn : G.nodes.get? L.current.text = some node) (hL : TurnReplays G L)
    (hc : completeNode L.current.text node L.state L.enter = ⟨log, .ok (state, ctx)⟩) :
    Follows G (pre ++ log) state.data := by
  obtain ⟨update, mode, nodeLog, hdone⟩ := completeNode_ok hc
  have hstate := applyAny_overwrites (hL.overwrites node update mode nodeLog hn hdone.ran)
    hdone.applied
  have h1 := follows_note h
    (still_framing G (.nodeStarted L.current.text node.typeName) trivial true)
  have h2 := follows_still h1 (fun n hmem => still_of_quiet (quiet_nodeLog hdone.ran n hmem))
  have h3 := follows_completed h2 L.current.text node.typeName hstate
  rw [hdone.wrote]
  simpa using h3

/-- A node that fails leaves only the note of its start and its own log. -/
theorem still_failed {nodeId : String} {node : GraphNode} {schema : Option Schema}
    {state : WorkflowState schema} {ctx : Ctx} {log : List Note} {e : EngineError}
    (h : completeNode nodeId node state ctx = ⟨log, .error e⟩) : ∀ n ∈ log, Still G n := by
  have hstart : Still G (.emit ⟨.nodeStarted nodeId node.typeName, true⟩) :=
    still_framing G (.nodeStarted nodeId node.typeName) trivial true
  unfold completeNode emit at h
  rw [Logged.note_bind] at h
  rcases hx : executeNode schema nodeId node state.data ctx with ⟨nodeLog, e' | ⟨update, mode⟩⟩
  · rw [hx, Logged.bind_error _ rfl] at h
    cases h
    intro n hn
    rcases List.mem_cons.mp hn with rfl | hn
    · exact hstart
    · exact still_of_quiet (quiet_nodeLog hx n hn)
  · rw [hx, Logged.bind_ok _ rfl] at h
    rcases hs : state.applyAny update with e' | s
    · simp only [hs, Logged.ofExcept] at h
      cases h
      intro n hn
      rcases List.mem_cons.mp hn with rfl | hn
      · exact hstart
      · refine still_of_quiet (quiet_nodeLog hx n ?_)
        rcases List.mem_append.mp hn with hn | hn
        · exact hn
        · cases hn
    · simp only [hs, Logged.ofExcept] at h
      cases h

theorem still_resolveNext {ctx : Ctx} {nodeId : String} {d : PyDict}
    {state : WorkflowState G.schema} {log : List Note}
    {result : Except EngineError (Resolution G.schema)}
    (h : resolveNext G env ctx nodeId d state = ⟨log, result⟩) : ∀ n ∈ log, Still G n := by
  intro n hn
  have hlog : log = (resolveNext G env ctx nodeId d state).log := by rw [h]
  rw [hlog] at hn
  exact still_of_quiet (quiet_resolveNext n hn)

/-- A turn that goes on keeps the projection beside the engine. -/
theorem follows_next {L₀ L L' : Loop G.schema} {pre log : List Note}
    (h : Follows G pre L.state.data) (hL : TurnReplays G L)
    (hstep : (loopMachine G env L₀).step L log L') : Follows G (pre ++ log) L'.state.data := by
  obtain ⟨node, ctx, r, hn, -, ha, hw, rfl⟩ := turn_next hstep.2.2
  obtain ⟨state, l, m, hc, hr, rfl⟩ := walk_ok hw
  have h1 := follows_completeNode h hn hL hc
  have h2 := follows_still h1 (still_resolveNext hr)
  have hstay : r.state = state := resolveNext_keeps (hL.keeps node l state ctx hn ha hc) hr
  show Follows G (pre ++ (l ++ m)) r.state.data
  rw [hstay, ← List.append_assoc]
  exact h2

/-- So does the last turn, however it ends. -/
theorem follows_last {L : Loop G.schema} {pre log : List Note} {ending : Ending}
    (h : Follows G pre L.state.data)
    (hL : L.current ≠ .END → L.ctx.turnNumber < G.maxTurns → TurnReplays G L)
    (hlast : Last G env L log ending) :
    ∃ d, Follows G (pre ++ log) d ∧ ∀ s, ending = .completed s → d = s := by
  cases hlast with
  | done hend =>
    refine ⟨_, by rwa [List.append_nil], ?_⟩
    rintro s ⟨⟩
    rfl
  | outOfTurns hend ht =>
    refine ⟨_, by rwa [List.append_nil], ?_⟩
    rintro s ⟨⟩
  | failed hend ht hturn =>
    rcases turn_failed hturn with ⟨-, rfl, -⟩ | ⟨node, hn, -, hw⟩
    · refine ⟨_, by rwa [List.append_nil], ?_⟩
      rintro s ⟨⟩
    · rcases Logged.of_bind_error hw with hc | ⟨l, ⟨state, ctx⟩, m, hc, hrest, rfl⟩
      · refine ⟨_, follows_still h (still_failed hc), ?_⟩
        rintro s ⟨⟩
      · have h1 := follows_completeNode h hn (hL hend ht) hc
        rcases Logged.of_bind_error hrest with hr | ⟨l', r, m', -, hp, -⟩
        · refine ⟨state.data, ?_, ?_⟩
          · rw [← List.append_assoc]
            exact follows_still h1 (still_resolveNext hr)
          · rintro s ⟨⟩
        · cases hp
  | paused hend ht hturn =>
    obtain ⟨node, hn, hpause⟩ := turn_paused hturn
    rcases hpause with ⟨-, -, rfl⟩ | ⟨-, -, ctx, r, l, hw, -, rfl⟩
    · refine ⟨_, follows_note h
        (still_framing G (.interruptRequested L.current.text .before) trivial true), ?_⟩
      rintro s ⟨⟩
    · obtain ⟨state, l', m, hc, hr, rfl⟩ := walk_ok hw
      have h1 := follows_completeNode h hn (hL hend ht) hc
      have h2 := follows_still h1 (still_resolveNext hr)
      have h3 := follows_note h2
        (still_framing G (.interruptRequested L.current.text .after) trivial true)
      refine ⟨state.data, by simpa using h3, ?_⟩
      rintro s ⟨⟩

/-! ## A run of the loop -/

/-- Every turn of a run of the loop is one that the projection can replay. -/
def LoopReplays (G : CompiledGraph) (env : Env) (L₀ : Loop G.schema) : Prop :=
  ∀ logs L, Run (loopMachine G env L₀) L₀ logs L → L.current ≠ .END →
    L.ctx.turnNumber < G.maxTurns → TurnReplays G L

theorem follows_run {L₀ L L' : Loop G.schema} {pre : List Note} {logs : List (List Note)}
    (hrun : Run (loopMachine G env L₀) L logs L') (h : Follows G pre L.state.data)
    (hL : ∀ logs M, Run (loopMachine G env L₀) L logs M → M.current ≠ .END →
      M.ctx.turnNumber < G.maxTurns → TurnReplays G M) :
    Follows G (pre ++ logs.flatten) L'.state.data := by
  induction hrun generalizing pre with
  | stay L => simpa using h
  | step first _ ih =>
    have hfirst := follows_next h (hL [] _ (.stay _) first.1 first.2.1) first
    have := ih hfirst (fun logs M hM => hL _ M (.step first hM))
    rwa [List.flatten_cons, ← List.append_assoc]

theorem follows_runLoop {L₀ : Loop G.schema} {pre : List Note} (h : Follows G pre L₀.state.data)
    (hL : LoopReplays G env L₀) :
    ∃ d, Follows G (pre ++ (runLoop G env L₀).log) d ∧
      ∀ s, (runLoop G env L₀).ending = .completed s → d = s := by
  obtain ⟨logs, L, log, ending, hrun, hlast⟩ := exists_path env L₀ L₀
  rw [runLoop_path hrun hlast]
  have hfollows := follows_run hrun h hL
  obtain ⟨d, hd, hend⟩ := follows_last hfollows (hL logs L hrun) hlast
  exact ⟨d, by rwa [List.append_assoc] at hd, hend⟩

/-! ## A call -/

/-- The event that says how a run ended. -/
def EndsWith (log : List Note) (state : PyDict) : Prop :=
  ∃ tokens cost,
    (bodies log).getLast? = some (.executionCompleted state tokens cost "completed")

theorem endsWith_emit (log : List Note) (state : PyDict) (tokens : Nat) (cost : Rat) :
    EndsWith (log ++ [.emit ⟨.executionCompleted state tokens cost "completed", true⟩]) state := by
  refine ⟨tokens, cost, ?_⟩
  rw [bodies_append]
  exact List.getLast?_concat

/-- What a call leaves behind when the projection followed it. -/
def CallFollows (G : CompiledGraph) (log : List Note) (outcome : Outcome) : Prop :=
  ∃ d, Follows G log d ∧ ∀ state, outcome = .completed state → d = state ∧ EndsWith log state

theorem follows_finish {metered : Bool} {pre before : List Note} {r : LoopRun} {d : PyDict}
    (h : Follows G (pre ++ before ++ r.log) d) (hd : ∀ s, r.ending = .completed s → d = s) :
    CallFollows G (pre ++ (finish env metered before r).log)
      (finish env metered before r).outcome := by
  rcases he : r.ending with state | p | ⟨nodeId, e⟩
  · simp only [finish, he]
    refine ⟨d, ?_, ?_⟩
    · rw [← List.append_assoc, ← List.append_assoc]
      exact follows_note h (still_framing G (.executionCompleted ..) trivial true)
    · rintro s ⟨⟩
      refine ⟨hd _ he, ?_⟩
      rw [← List.append_assoc]
      exact endsWith_emit ..
  · simp only [finish, he]
    refine ⟨d, by rwa [← List.append_assoc], ?_⟩
    rintro s ⟨⟩
  · simp only [finish, he]
    refine ⟨d, ?_, ?_⟩
    · rw [← List.append_assoc, ← List.append_assoc]
      refine follows_still h (fun n hn => ?_)
      rcases List.mem_cons.mp hn with rfl | hn
      · exact still_framing G (.errorOccurred ..) trivial true
      · rw [List.mem_singleton.mp hn]
        exact still_framing G (.executionCompleted ..) trivial true
    · rintro s ⟨⟩

theorem follows_runFrom {metered : Bool} {pre before : List Note} {stateDict d : PyDict}
    {start : WorkflowState G.schema → Loop G.schema} (h : Follows G (pre ++ before) d)
    (hstart : ∀ state, WorkflowState.ofDict G.schema stateDict = .ok state →
      (start state).state.data = d ∧ LoopReplays G env (start state)) :
    CallFollows G (pre ++ (runFrom G env metered before stateDict start).log)
      (runFrom G env metered before stateDict start).outcome := by
  rcases hs : WorkflowState.ofDict G.schema stateDict with e | state
  · simp only [runFrom, hs]
    refine ⟨d, h, ?_⟩
    rintro s ⟨⟩
  · simp only [runFrom, hs]
    obtain ⟨hdata, hloop⟩ := hstart state hs
    rw [← hdata] at h
    obtain ⟨d', hfollows, hend⟩ := follows_runLoop h hloop
    exact follows_finish hfollows hend

theorem complete_of_ofDict {d : PyDict} {state : WorkflowState G.schema}
    (h : WorkflowState.ofDict G.schema d = .ok state) : state.data = complete G d := by
  rcases G with ⟨nodes, edges, entryPoint, schema, maxTurns, name, handoffEdges⟩
  cases schema with
  | none =>
    cases h
    rfl
  | some S =>
    simp only [WorkflowState.ofDict] at h
    split at h
    · rename_i s hs
      cases h
      simp only [complete, hs]
    · cases h

/-- The start of a run gives the projection and the engine the same state. -/
theorem follows_started {pre : List Note} {d : PyDict} (h : Follows G pre d) (input : RunInput) :
    Follows G (pre ++ [startedNote G input]) (complete G input.initialState) := by
  refine ⟨?_, ?_, ?_⟩
  · rw [projected_bodies, List.foldl_append]
    rfl
  · unfold lastHeld
    rw [List.foldl_append]
    rfl
  · intro before e post heq
    rcases holds_concat heq with ⟨post', hpost⟩ | ⟨-, hlast⟩
    · exact h.right before e post' hpost
    · cases hlast

/-! ## The law -/

/-- What the projection needs of a call: each turn is one that it can replay,
and a resume goes on with the state that the engine held before. -/
def CallReplays (G : CompiledGraph) (runId : String) (s : Session) : Call → Prop
  | .run env input => ∀ state, WorkflowState.ofDict G.schema input.initialState = .ok state →
    LoopReplays G env (runStart G { input with context := { input.context with runId } } state)
  | .resume env stateUpdates => ∀ cp, s.record.latestCheckpoint = some cp →
    ∀ state, WorkflowState.ofDict G.schema (cp.state.update stateUpdates) = .ok state →
      state.data = lastHeld G s.log ∧ LoopReplays G env (resumeStart G cp state)
  | .fork .. => True

/-- The events of the session replay to the states of the engine. -/
structure Faithful (G : CompiledGraph) (s : Session) : Prop where
  stored : stored s.record = bodies s.log
  prefixes : ∀ pre d post, s.log = pre ++ .holds d :: post → projected G (bodies pre) = d
  final : ∀ state, s.last = some (.completed state) → EndsWith s.log state ∧
    projected G (sessions.stored s.record) = state

/-- The invariant of a session that the projection follows. -/
structure Replayed (G : CompiledGraph) (runId : String) (s : Session) : Prop where
  kept : Kept runId s
  follows : ∃ d, Follows G s.log d ∧ ∀ state, s.last = some (.completed state) →
    d = state ∧ EndsWith s.log state

theorem replayed_new (runId : String) : Replayed G runId .new := by
  refine ⟨kept_new runId, .empty, ⟨rfl, rfl, ?_⟩, ?_⟩
  · intro pre d post h
    cases pre <;> cases h
  · rintro state ⟨⟩

theorem replayed_step {runId : String} {s t : Session} {call : Call} (hs : Replayed G runId s)
    (h : (sessionMachine G runId).step s call t) (hcall : CallReplays G runId s call) :
    Replayed G runId t := by
  have hkept := kept_step hs.kept h
  obtain ⟨d, hfollows, -⟩ := hs.follows
  have hended : ∀ {log : List Note} {outcome : Outcome}, CallFollows G log outcome →
      ∃ d, Follows G log d ∧ ∀ state, some outcome = some (.completed state) →
        d = state ∧ EndsWith log state := by
    rintro log outcome ⟨d, hd, hend⟩
    exact ⟨d, hd, fun state hstate => hend state (Option.some.inj hstate)⟩
  rcases session_cases hs.kept h with
    ⟨env, input, -, rfl, rfl⟩ | ⟨env, stateUpdates, p, n, -, rfl, hcp, rfl⟩
  · refine ⟨hkept, hended ?_⟩
    exact follows_runFrom (follows_started hfollows _) (fun state hstate =>
      ⟨complete_of_ofDict hstate, hcall state hstate⟩)
  · refine ⟨hkept, hended ?_⟩
    have hresumed := follows_note hfollows
      (still_framing G (.interruptResumed p.nodeId stateUpdates) trivial true)
    refine follows_runFrom hresumed (fun state hstate => ?_)
    obtain ⟨hdata, hloop⟩ := hcall _ hcp state hstate
    exact ⟨hdata.trans hfollows.held, hloop⟩

/-- In every session whose calls are all ones that the projection can replay,
the events that the store holds replay to what the engine held, at each node
of the main path and at the end. -/
theorem projection_is_faithful (G : CompiledGraph) (runId : String) (s : Session)
    (h : Reachable ((sessionMachine G runId).restrict (CallReplays G runId)) s) :
    Faithful G s := by
  have hs : Replayed G runId s := by
    refine h.invariant ?_ ?_
    · rintro s rfl
      exact replayed_new runId
    · rintro s call t hs ⟨hstep, hcall⟩
      exact replayed_step hs hstep hcall
  obtain ⟨d, hfollows, hend⟩ := hs.follows
  refine ⟨hs.kept.stored, hfollows.right, ?_⟩
  intro state hstate
  obtain ⟨rfl, hlast⟩ := hend state hstate
  refine ⟨hlast, ?_⟩
  rw [hs.kept.stored]
  exact hfollows.projected

/-! ## A run with a pause that replays -/

/-- Two steps without a state class, with a pause before the second one. -/
def twoSteps : CompiledGraph where
  nodes := Dict.ofList [
    ("draft", .function (pureNode "draft" fun _ => Dict.ofList [("text", .str "a poem")])),
    ("review", .function { pureNode "review" fun _ => Dict.ofList [("approved", .bool true)] with
      interruptBefore := true })]
  edges := [.plain "draft" (.node "review"), .plain "review" .END]
  entryPoint := "draft"
  schema := none
  maxTurns := 50
  name := ""
  handoffEdges := []

theorem twoSteps_replays (L : Loop twoSteps.schema) : TurnReplays twoSteps L := by
  refine ⟨?_, ?_⟩
  · rintro node update mode log - - S ⟨⟩
  · intro node log state ctx hn _ _
    have hmem : L.current.text ∈ twoSteps.nodes.keys := (Dict.mem_keys_iff _ _).mpr ⟨node, hn⟩
    have hkeys : twoSteps.nodes.keys = ["draft", "review"] := rfl
    rw [hkeys] at hmem
    generalize L.current.text = nodeId at hmem
    rcases List.mem_pair.mp hmem with rfl | rfl
    · trivial
    · trivial

/-- The session after a run that pauses and a resume that ends it. -/
def approved : Session :=
  (Session.new.after twoSteps "run" (.run inOrder (plainInput .empty))).after twoSteps "run"
    (.resume inOrder .empty)

theorem a_pause_replays : Faithful twoSteps approved := by
  refine projection_is_faithful twoSteps "run" approved ?_
  have hloop : ∀ (env : Env) (L : Loop twoSteps.schema), LoopReplays twoSteps env L :=
    fun _ _ _ L _ _ _ => twoSteps_replays L
  have h1 : Reachable ((sessionMachine twoSteps "run").restrict (CallReplays twoSteps "run"))
      (Session.new.after twoSteps "run" (.run inOrder (plainInput .empty))) :=
    (reachable_init rfl).step ⟨⟨.run _ _, rfl⟩, fun _ _ => hloop _ _⟩
  refine h1.step ⟨⟨?_, rfl⟩, ?_⟩
  · exact .resume _ _ _
  · intro cp hcp state hstate
    cases hcp
    cases hstate
    exact ⟨rfl, hloop _ _⟩

/-! ## A reducer that the projection leaves out -/

/-- A class with one field, a list that grows. -/
def growing : Schema :=
  Schema.ofDefaults "State" (Dict.ofList [("items", .list [.str "a"])])
    (Dict.ofList [("items", mergeList)]) (by decide)

/-- One node, which adds an item. -/
def collecting : CompiledGraph where
  nodes := Dict.ofList [
    ("collect", .function (pureNode "collect" fun _ =>
      Dict.ofList [("items", .list [.str "b"])]))]
  edges := [.plain "collect" .END]
  entryPoint := "collect"
  schema := some growing
  maxTurns := 50
  name := ""
  handoffEdges := []

def collected : Session :=
  Session.new.after collecting "run" (.run inOrder (plainInput .empty))

/-- The engine ends with two items, and the projection with the new one only. -/
theorem a_reducer_is_not_replayed :
    Reachable (sessionMachine collecting "run") collected ∧
    collected.last =
      some (.completed (Dict.ofList [("items", .list [.str "a", .str "b"])])) ∧
    projected collecting (stored collected.record) =
      Dict.ofList [("items", .list [.str "b"])] ∧
    ¬ Faithful collecting collected := by
  have hlast : collected.last =
      some (.completed (Dict.ofList [("items", .list [.str "a", .str "b"])])) := rfl
  have hprojected : projected collecting (stored collected.record) =
      Dict.ofList [("items", .list [.str "b"])] := rfl
  refine ⟨(reachable_init rfl).step ⟨.run _ _, rfl⟩, hlast, hprojected, fun h => ?_⟩
  have hsame := (h.final _ hlast).2
  rw [hprojected] at hsame
  revert hsame
  decide

end orchestra.projection
