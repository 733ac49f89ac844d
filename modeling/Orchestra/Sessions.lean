-- A session: one `run` on a new run id and any number of resumes, each one
-- after a pause. The store holds what the calls put on their buses, and the
-- checkpoint of a pause holds what the pause saved.
import Orchestra.Runs
import Orchestra.Turns

open dicts logged machine orchestra.state orchestra.edges orchestra.events orchestra.nodes
open orchestra.compiled orchestra.turns orchestra.runs

namespace orchestra.sessions

/-! ## The machine -/

/-- The record of the run, all that its calls wrote, and how the last call
ended, if there was one. -/
structure Session where
  record : RunRecord
  log : List Note
  last : Option Outcome

def Session.new : Session := ⟨.empty, [], none⟩

/-- The call that a session can take next. -/
inductive Next : Option Outcome → Call → Prop
  | run (env : Env) (input : RunInput) : Next none (.run env input)
  | resume (env : Env) (stateUpdates : PyDict) (p : Pause) :
    Next (some (.interrupted p)) (.resume env stateUpdates)

/-- The session after a call. A call that is no fork ends with an outcome. -/
def Session.after (G : CompiledGraph) (runId : String) (s : Session) (call : Call) : Session :=
  let x := call.exec G runId s.record
  match x.2.2 with
  | .ended outcome => ⟨x.1, s.log ++ x.2.1, some outcome⟩
  | .forked _ => ⟨x.1, s.log ++ x.2.1, s.last⟩

def sessionMachine (G : CompiledGraph) (runId : String) : Machine Session Call where
  init s := s = .new
  step s call t := Next s.last call ∧ t = s.after G runId call

/-! ## What the store holds -/

/-- The bodies of the stored events, in the order in which they were stored. -/
def stored (r : RunRecord) : List EventBody := r.events.map (·.body)

def bodies (log : List Note) : List EventBody := (emissions log).map (·.body)

theorem bodies_append (l m : List Note) : bodies (l ++ m) = bodies l ++ bodies m := by
  unfold bodies
  rw [emissions_append, List.map_append]

theorem stored_publish (r : RunRecord) (runId : String) (bus : EventBus) (call : EngineRun) :
    stored (r.publish runId bus call) = stored r ++ bodies call.log := by
  unfold stored bodies
  rw [RunRecord.events_publish, List.map_append, EventBus.bodies_emitAll]

theorem loopBody_of_mem {log : List Note} (h : ∀ n ∈ log, LoopNote n) {e : EventBody}
    (he : e ∈ bodies log) : LoopBody e := by
  obtain ⟨emission, hmem, rfl⟩ := List.mem_map.mp he
  obtain ⟨n, hn, hemitted⟩ := List.mem_filterMap.mp hmem
  have hnote := h n hn
  cases n with
  | emit e' =>
    cases hemitted
    exact hnote
  | _ => cases hemitted

/-- The events of a call after its first one. -/
def CallBody : EventBody → Prop
  | .errorOccurred .. | .executionCompleted .. => True
  | body => LoopBody body

theorem callBody_of_loopBody {e : EventBody} (h : LoopBody e) : CallBody e := by
  cases e <;> first | exact h | trivial

theorem bodies_runFrom (G : CompiledGraph) (env : Env) (metered : Bool) (before : List Note)
    (stateDict : PyDict) (start : WorkflowState G.schema → Loop G.schema) :
    ∃ rest, bodies (runFrom G env metered before stateDict start).log = bodies before ++ rest ∧
      ∀ e ∈ rest, CallBody e := by
  unfold runFrom
  rcases WorkflowState.ofDict G.schema stateDict with _ | state
  · exact ⟨[], by simp⟩
  have hloop : ∀ e ∈ bodies (runLoop G env (start state)).log, CallBody e := fun e he =>
    callBody_of_loopBody (loopBody_of_mem (loopNotes_runLoop env (start state)) he)
  rcases hending : (runLoop G env (start state)).ending with final | p | ⟨nodeId, error⟩
  all_goals
    simp only [finish, hending, bodies_append, List.append_assoc]
  · refine ⟨_, rfl, fun e he => ?_⟩
    rcases List.mem_append.mp he with he | he
    · exact hloop e he
    · rw [List.mem_singleton.mp he]
      trivial
  · exact ⟨_, rfl, hloop⟩
  · refine ⟨_, rfl, fun e he => ?_⟩
    rcases List.mem_append.mp he with he | he
    · exact hloop e he
    · rcases List.mem_pair.mp he with rfl | rfl <;> trivial

/-- The checkpoint that saves a pause. -/
def checkpointOf (runId : String) (sequenceNumber : Int) (p : Pause) : Checkpoint :=
  ⟨runId, sequenceNumber, p.nodeId, p.type, p.state, p.loopCounters, p.nodeExecutionOrder⟩

theorem latest_publish (r : RunRecord) (runId : String) (bus : EventBus) (call : EngineRun)
    {p : Pause} (h : call.outcome = .interrupted p) :
    ∃ sequenceNumber, (r.publish runId bus call).latestCheckpoint =
      some (checkpointOf runId sequenceNumber p) := by
  unfold RunRecord.publish
  rw [h]
  exact ⟨_, List.getLast?_concat⟩

/-- What holds of the session between its calls. -/
structure Kept (runId : String) (s : Session) : Prop where
  stored : stored s.record = bodies s.log
  checkpoint : ∀ p, s.last = some (.interrupted p) →
    ∃ sequenceNumber, s.record.latestCheckpoint = some (checkpointOf runId sequenceNumber p)

theorem kept_new (runId : String) : Kept runId .new := by
  refine ⟨rfl, ?_⟩
  rintro p ⟨⟩

/-- The run that a first call of a session starts. -/
def firstRun (G : CompiledGraph) (runId : String) (env : Env) (input : RunInput) : EngineRun :=
  run G env { input with context := { input.context with runId } }

/-- A step is a first run, or a resume from the pause that the session is in. -/
theorem session_cases {G : CompiledGraph} {runId : String} {s t : Session} {call : Call}
    (hs : Kept runId s) (h : (sessionMachine G runId).step s call t) :
    (∃ env input, s.last = none ∧ call = .run env input ∧
      t = ⟨s.record.publish runId .new (firstRun G runId env input),
        s.log ++ (firstRun G runId env input).log, some (firstRun G runId env input).outcome⟩) ∨
    (∃ env stateUpdates p n, s.last = some (.interrupted p) ∧ call = .resume env stateUpdates ∧
      s.record.latestCheckpoint = some (checkpointOf runId n p) ∧
      t = ⟨s.record.publish runId (EventBus.new.setSequence n)
          (resume G env stateUpdates (checkpointOf runId n p)),
        s.log ++ (resume G env stateUpdates (checkpointOf runId n p)).log,
        some (resume G env stateUpdates (checkpointOf runId n p)).outcome⟩) := by
  obtain ⟨hnext, rfl⟩ := h
  rcases hl : s.last with _ | o <;> rw [hl] at hnext <;> cases hnext
  · rename_i env input
    exact Or.inl ⟨env, input, rfl, rfl, rfl⟩
  · rename_i env stateUpdates p
    obtain ⟨n, hcp⟩ := hs.checkpoint p hl
    refine Or.inr ⟨env, stateUpdates, p, n, rfl, rfl, hcp, ?_⟩
    simp only [Session.after, Call.exec, hcp]
    rfl

theorem kept_step {G : CompiledGraph} {runId : String} {s t : Session} {call : Call}
    (hs : Kept runId s) (h : (sessionMachine G runId).step s call t) : Kept runId t := by
  rcases session_cases hs h with ⟨env, input, -, -, rfl⟩ | ⟨env, stateUpdates, p, n, -, -, -, rfl⟩
  all_goals
    refine ⟨?_, fun q hq => latest_publish _ _ _ _ (Option.some.inj hq)⟩
    rw [stored_publish, hs.stored, bodies_append]

end orchestra.sessions
