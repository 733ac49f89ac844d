-- The law of sequence numbers. Each call has its own bus, and the agents take
-- no number for what they report. So the numbers of a run grow only as long as
-- each call starts where the record ends and every event takes a number.
import Orchestra.Runs
import Orchestra.Agent

open dicts logged orchestra.state orchestra.edges orchestra.events orchestra.nodes
open orchestra.compiled orchestra.runs orchestra.agent

namespace orchestra.sequences

/-! ## What the numbers promise -/

def sequencesOf (events : List WorkflowEvent) : List Int := events.map (·.sequence)

/-- The numbers grow in the order of emission, so no two events share one. -/
def Increasing (events : List WorkflowEvent) : Prop := (sequencesOf events).Pairwise (· < ·)

/-- The numbers grow, and a read after the number of an event gives exactly
the events that were emitted after it. -/
structure WellNumbered (r : RunRecord) : Prop where
  increasing : Increasing r.events
  reads : ∀ i e, r.events[i]? = some e → r.getEvents e.sequence = r.events.drop (i + 1)

theorem filter_after {events : List WorkflowEvent} (h : Increasing events) {i : Nat}
    {e : WorkflowEvent} (he : events[i]? = some e) :
    events.filter (fun f => e.sequence < f.sequence) = events.drop (i + 1) := by
  induction events generalizing i with
  | nil => cases he
  | cons a rest ih =>
    obtain ⟨ha, hrest⟩ := List.pairwise_cons.mp h
    have hlater : ∀ f ∈ rest, a.sequence < f.sequence := fun f hf =>
      ha f.sequence (List.mem_map.mpr ⟨f, hf, rfl⟩)
    cases i with
    | zero =>
      cases he
      rw [List.filter_cons_of_neg (by simp)]
      exact List.filter_eq_self.mpr (fun f hf => by simpa using hlater f hf)
    | succ i =>
      have hmem : e ∈ rest := List.mem_of_getElem? he
      have hlt := hlater e hmem
      rw [List.filter_cons_of_neg (by rw [decide_eq_true_eq]; omega)]
      exact ih hrest he

theorem wellNumbered_iff (r : RunRecord) : WellNumbered r ↔ Increasing r.events :=
  ⟨fun h => h.increasing, fun h => ⟨h, fun _ _ he => filter_after h he⟩⟩

theorem increasing_append (old new : List WorkflowEvent) :
    Increasing (old ++ new) ↔
      Increasing old ∧ Increasing new ∧ ∀ a ∈ old, ∀ b ∈ new, a.sequence < b.sequence := by
  unfold Increasing sequencesOf
  rw [List.map_append, List.pairwise_append]
  simp only [List.mem_map, forall_exists_index, and_imp, forall_apply_eq_imp_iff₂]

/-! ## One bus -/

/-- Every emission takes a number. -/
def AllNumbered (es : List Emission) : Prop := ∀ e ∈ es, e.numbered = true

/-- From a bus whose last number is not negative, the numbers grow past it
exactly when every emission takes one. -/
theorem increasing_emitAll (runId : String) (bus : EventBus) (hb : 0 ≤ bus.counter)
    (es : List Emission) :
    (Increasing (bus.emitAll runId es).1 ∧
        ∀ e ∈ (bus.emitAll runId es).1, bus.counter < e.sequence) ↔ AllNumbered es := by
  induction es generalizing bus with
  | nil => simp [EventBus.emitAll, Increasing, sequencesOf, AllNumbered]
  | cons e rest ih =>
    have hall : AllNumbered (e :: rest) ↔ e.numbered = true ∧ AllNumbered rest := by
      simp [AllNumbered]
    rw [hall]
    rcases hn : e.numbered with _ | _
    · rw [EventBus.emitAll_plain runId bus rest hn]
      simp only [Bool.false_eq_true, false_and, iff_false]
      rintro ⟨-, h⟩
      have h0 := h _ (List.mem_cons_self ..)
      simp only at h0
      omega
    · have hnext := ih ⟨bus.counter + 1⟩ (by show 0 ≤ bus.counter + 1; omega)
      rw [EventBus.emitAll_numbered runId bus rest hn, ← hnext]
      simp only [eq_self, true_and]
      constructor
      · rintro ⟨hinc, -⟩
        obtain ⟨hlt, hinc⟩ := List.pairwise_cons.mp hinc
        exact ⟨hinc, fun f hf => hlt f.sequence (List.mem_map.mpr ⟨f, hf, rfl⟩)⟩
      · rintro ⟨hinc, hlt⟩
        refine ⟨List.pairwise_cons.mpr ⟨?_, hinc⟩, ?_⟩
        · intro s hs
          obtain ⟨f, hf, rfl⟩ := List.mem_map.mp hs
          exact hlt f hf
        · intro f hf
          rcases List.mem_cons.mp hf with rfl | hf
          · show bus.counter < bus.counter + 1
            omega
          · have := hlt f hf
            omega

/-- A call whose first emission takes a number, on a record with no number
above the last one of its bus. -/
theorem increasing_call (runId : String) (bus : EventBus) (hb : -1 ≤ bus.counter)
    (old : List WorkflowEvent) (first : Emission) (rest : List Emission)
    (hf : first.numbered = true) :
    Increasing (old ++ (bus.emitAll runId (first :: rest)).1) ↔
      Increasing old ∧ (∀ e ∈ old, e.sequence ≤ bus.counter) ∧ AllNumbered (first :: rest) := by
  have hnext := increasing_emitAll runId ⟨bus.counter + 1⟩
    (by show 0 ≤ bus.counter + 1; omega) rest
  have hall : AllNumbered (first :: rest) ↔ AllNumbered rest := by
    simp [AllNumbered, hf]
  rw [increasing_append, hall, ← hnext, EventBus.emitAll_numbered runId bus rest hf]
  refine and_congr_right (fun _ => ⟨?_, ?_⟩)
  · rintro ⟨hnew, hlt⟩
    obtain ⟨hlater, hinc⟩ := List.pairwise_cons.mp hnew
    refine ⟨fun e he => ?_, hinc, fun f hf => hlater f.sequence (List.mem_map.mpr ⟨f, hf, rfl⟩)⟩
    have := hlt e he _ (List.mem_cons_self ..)
    simp only at this
    omega
  · rintro ⟨hold, hinc, hlater⟩
    refine ⟨List.pairwise_cons.mpr ⟨?_, hinc⟩, ?_⟩
    · intro s hs
      obtain ⟨f, hf, rfl⟩ := List.mem_map.mp hs
      exact hlater f hf
    · intro e he f hf
      have hle := hold e he
      rcases List.mem_cons.mp hf with rfl | hf
      · show e.sequence < bus.counter + 1
        omega
      · have := hlater f hf
        simp only at this
        omega

/-! ## The calls -/

/-- The numbers of a record, and those of its checkpoints, are not negative. -/
structure Sound (r : RunRecord) : Prop where
  events : ∀ e ∈ r.events, 0 ≤ e.sequence
  checkpoints : ∀ cp ∈ r.checkpoints, 0 ≤ cp.sequenceNumber

theorem emitAll_sound (runId : String) (bus : EventBus) (hb : -1 ≤ bus.counter)
    (es : List Emission) :
    (∀ e ∈ (bus.emitAll runId es).1, 0 ≤ e.sequence) ∧
      -1 ≤ (bus.emitAll runId es).2.counter := by
  induction es generalizing bus with
  | nil => exact ⟨by simp [EventBus.emitAll], hb⟩
  | cons e rest ih =>
    rcases hn : e.numbered with _ | _
    · rw [EventBus.emitAll_plain runId bus rest hn]
      obtain ⟨hs, hc⟩ := ih bus hb
      refine ⟨?_, hc⟩
      intro f hf
      rcases List.mem_cons.mp hf with rfl | hf
      · exact Int.le_refl 0
      · exact hs f hf
    · rw [EventBus.emitAll_numbered runId bus rest hn]
      obtain ⟨hs, hc⟩ := ih ⟨bus.counter + 1⟩ (by show -1 ≤ bus.counter + 1; omega)
      refine ⟨?_, hc⟩
      intro f hf
      rcases List.mem_cons.mp hf with rfl | hf
      · show 0 ≤ bus.counter + 1
        omega
      · exact hs f hf

theorem sound_publish {r : RunRecord} (hr : Sound r) (runId : String) {bus : EventBus}
    (hb : -1 ≤ bus.counter) (call : EngineRun) : Sound (r.publish runId bus call) := by
  obtain ⟨hs, hc⟩ := emitAll_sound runId bus hb (emissions call.log)
  refine ⟨?_, ?_⟩
  · rw [RunRecord.events_publish]
    intro e he
    rcases List.mem_append.mp he with he | he
    · exact hr.events e he
    · exact hs e he
  · unfold RunRecord.publish
    rcases call.outcome with state | p | e
    · exact hr.checkpoints
    · intro cp hcp
      rcases List.mem_append.mp hcp with hcp | hcp
      · exact hr.checkpoints cp hcp
      · rw [List.mem_singleton.mp hcp]
        simp only [EventBus.nextSequence]
        omega
    · exact hr.checkpoints

theorem emissions_runFrom (G : CompiledGraph) (env : Env) (metered : Bool) (first : Emission)
    (d : PyDict) (start : WorkflowState G.schema → Loop G.schema) :
    ∃ rest, emissions (runFrom G env metered [.emit first] d start).log = first :: rest := by
  unfold runFrom
  split
  · exact ⟨[], rfl⟩
  · rename_i state _
    rcases he : (runLoop G env (start state)).ending with s | p | ⟨nodeId, e⟩
    all_goals
      simp only [finish, he]
      exact ⟨_, rfl⟩

theorem increasing_runFrom {r : RunRecord} {runId : String} {bus : EventBus}
    (hb : -1 ≤ bus.counter) {G : CompiledGraph} {env : Env} {metered : Bool} {body : EventBody}
    {d : PyDict} {start : WorkflowState G.schema → Loop G.schema} :
    Increasing (r.publish runId bus (runFrom G env metered [.emit ⟨body, true⟩] d start)).events ↔
      Increasing r.events ∧ (∀ e ∈ r.events, e.sequence ≤ bus.counter) ∧
        AllNumbered (emissions (runFrom G env metered [.emit ⟨body, true⟩] d start).log) := by
  obtain ⟨rest, hrest⟩ := emissions_runFrom G env metered ⟨body, true⟩ d start
  rw [RunRecord.events_publish, hrest]
  exact increasing_call runId bus hb r.events _ rest rfl

/-- A call that keeps the numbers: `run` on an empty record, `resume` from a
checkpoint that no event has a number past, and no fork that succeeds. And no
agent of it reports anything, as reports take no number. -/
def Keeps (G : CompiledGraph) (runId : String) (r : RunRecord) : Call → Prop
  | .run env input => r.events = [] ∧
    AllNumbered (emissions (Call.exec G runId r (.run env input)).2.1)
  | .resume env stateUpdates => ∀ cp, r.latestCheckpoint = some cp →
    (∀ e ∈ r.events, e.sequence ≤ cp.sequenceNumber) ∧
      AllNumbered (emissions (Call.exec G runId r (.resume env stateUpdates)).2.1)
  | .fork env sequenceNumber stateOverrides newRunId =>
    ∀ point, (fork G env r runId sequenceNumber stateOverrides newRunId).result ≠ .ok point

theorem latest_mem {r : RunRecord} {cp : Checkpoint} (h : r.latestCheckpoint = some cp) :
    cp ∈ r.checkpoints :=
  List.mem_of_getLast? h

theorem sound_exec {r : RunRecord} (hr : Sound r) (G : CompiledGraph) (runId : String)
    (call : Call) : Sound (call.exec G runId r).1 := by
  cases call with
  | run env input => exact sound_publish hr runId (Int.le_refl _) _
  | resume env stateUpdates =>
    simp only [Call.exec]
    split
    · exact hr
    · rename_i cp hcp
      have h0 := hr.checkpoints cp (latest_mem hcp)
      refine sound_publish hr runId ?_ _
      show -1 ≤ cp.sequenceNumber
      omega
  | fork env sequenceNumber stateOverrides newRunId =>
    simp only [Call.exec]
    split
    · exact hr
    · refine ⟨?_, hr.checkpoints⟩
      intro e he
      rcases List.mem_append.mp he with he | he
      · exact hr.events e he
      · rw [List.mem_singleton.mp he]
        exact Int.le_refl 0

/-- A fork needs an event to fork at. -/
theorem events_of_fork {G : CompiledGraph} {env : Env} {r : RunRecord} {runId newRunId : String}
    {sequenceNumber : Int} {stateOverrides : PyDict} {point : ForkPoint}
    (h : (fork G env r runId sequenceNumber stateOverrides newRunId).result = .ok point) :
    r.events ≠ [] := by
  intro hnil
  have hstate : getStateAt r runId sequenceNumber = .error (.noEvents runId sequenceNumber) := by
    simp [getStateAt, RunRecord.getEvents, hnil]
  unfold fork at h
  rw [hstate, Logged.bind_error _ rfl] at h
  cases h

/-- One call keeps the numbers growing exactly when it meets the condition. -/
theorem increasing_exec {r : RunRecord} (hr : Sound r) (G : CompiledGraph) (runId : String)
    (call : Call) :
    Increasing (call.exec G runId r).1.events ↔ Increasing r.events ∧ Keeps G runId r call := by
  cases call with
  | run env input =>
    refine (increasing_runFrom (Int.le_refl _)).trans (and_congr_right (fun _ => ?_))
    refine and_congr_left (fun _ => ⟨fun h => ?_, ?_⟩)
    · rw [List.eq_nil_iff_forall_not_mem]
      intro e he
      have h1 := h e he
      have h2 := hr.events e he
      simp only at h1
      omega
    · intro h e he
      rw [h] at he
      cases he
  | resume env stateUpdates =>
    simp only [Call.exec, Keeps]
    rcases hcp : r.latestCheckpoint with _ | cp
    · simp
    · have h0 := hr.checkpoints cp (latest_mem hcp)
      simp only [Option.some.injEq, forall_eq']
      refine increasing_runFrom ?_
      show -1 ≤ cp.sequenceNumber
      omega
  | fork env sequenceNumber stateOverrides newRunId =>
    simp only [Call.exec, Keeps]
    rcases hx : (fork G env r runId sequenceNumber stateOverrides newRunId).result with e | point
    · simp
    · have hne := events_of_fork hx
      refine ⟨fun h => ?_, fun h => absurd rfl (h.2 point)⟩
      obtain ⟨e, he⟩ := List.exists_mem_of_ne_nil _ hne
      have hlt := ((increasing_append _ _).mp h).2.2 e he _ (List.mem_singleton_self _)
      have h0 := hr.events e he
      simp only [forkEvent] at hlt
      omega

/-! ## A history -/

/-- The record after a history of calls, each on a graph. -/
def history (runId : String) (r : RunRecord) (calls : List (CompiledGraph × Call)) : RunRecord :=
  calls.foldl (fun r c => (c.2.exec c.1 runId r).1) r

/-- Each call of a history meets the condition on the record it finds. -/
def KeepsAll (runId : String) : RunRecord → List (CompiledGraph × Call) → Prop
  | _, [] => True
  | r, c :: rest => Keeps c.1 runId r c.2 ∧ KeepsAll runId (c.2.exec c.1 runId r).1 rest

theorem increasing_history (runId : String) (calls : List (CompiledGraph × Call)) {r : RunRecord}
    (hr : Sound r) :
    Increasing (history runId r calls).events ↔ Increasing r.events ∧ KeepsAll runId r calls := by
  induction calls generalizing r with
  | nil => simp [history, KeepsAll]
  | cons c rest ih =>
    have hnext := ih (sound_exec hr c.1 runId c.2)
    rw [increasing_exec hr, and_assoc] at hnext
    exact hnext

theorem sound_empty : Sound .empty := by
  refine ⟨?_, ?_⟩
  · rintro e ⟨⟩
  · rintro cp ⟨⟩

/-- After any history of calls on a run, its sequence numbers identify its
events if and only if every call of the history kept them. -/
theorem sequences_identify_events_iff (runId : String) (calls : List (CompiledGraph × Call)) :
    WellNumbered (history runId .empty calls) ↔ KeepsAll runId .empty calls := by
  rw [wellNumbered_iff, increasing_history runId calls sound_empty]
  exact and_iff_right List.Pairwise.nil

/-! ## One call of a model -/

/-- An agent without tools, whose model always says the same. -/
def chatty : BaseAgent where
  name := "writer"
  model := none
  systemPrompt := "You are a helpful assistant."
  tools := []
  acl := none
  maxIterations := 10
  structured := none

def chattyGraph : CompiledGraph where
  nodes := Dict.ofList [("writer",
    .agent (chatty.node (some fun _ => .ok ⟨some "a poem", [], none, "model"⟩)))]
  edges := [.plain "writer" .END]
  entryPoint := "writer"
  schema := none
  maxTurns := 50
  name := ""
  handoffEdges := []

/-- One call of a model is enough: its event has the number 0 again. -/
theorem a_call_of_a_model_repeats_a_number :
    sequencesOf (history "run" .empty
      [(chattyGraph, .run inOrder (plainInput .empty))]).events = [0, 1, 0, 2, 3] ∧
    ¬ WellNumbered (history "run" .empty [(chattyGraph, .run inOrder (plainInput .empty))]) := by
  have h : sequencesOf (history "run" .empty
      [(chattyGraph, .run inOrder (plainInput .empty))]).events = [0, 1, 0, 2, 3] := rfl
  refine ⟨h, fun hw => ?_⟩
  have hinc := hw.increasing
  unfold Increasing at hinc
  rw [h] at hinc
  revert hinc
  decide

end orchestra.sequences
