-- The law of one execution at a time. Nothing in the table keeps a run that is
-- running from being resumed, and a cancel gives up after two seconds. So the
-- law holds as long as neither of that happens.
import Orchestra.Server

open dicts machine orchestra.state orchestra.compiled orchestra.runs orchestra.server

namespace orchestra.exclusion

/-! ## What the law says -/

/-- At most one task of the run is live, and none is once a cancel was
answered. -/
structure Exclusive (a : ActiveRun) : Prop where
  single : ∀ (i j : Nat) (u v : Task), a.tasks[i]? = some u → a.tasks[j]? = some v →
    u.ended = none → v.ended = none → i = j
  stopped : a.stopped = true → ∀ u ∈ a.tasks, u.ended ≠ none

/-- A run is resumed only when none of its tasks is live and no cancel waits,
and no cancel gives up its wait. -/
def Patient (a : ActiveRun) : Action → Prop
  | .resume => Calm a
  | .cancelReturns _ timedOut => timedOut = false
  | _ => True

/-! ## The invariant -/

structure Stopped (a : ActiveRun) : Prop where
  orderly : Orderly a
  stopped : a.stopped = true → ∀ (i : Nat) (u : Task), a.tasks[i]? = some u → u.ended ≠ none

theorem exclusive_of_stopped {a : ActiveRun} (h : Stopped a) : Exclusive a := by
  refine ⟨?_, ?_⟩
  · intro i j u v hu hv hlu hlv
    have hi := h.orderly.newest i u hu hlu
    have hj := h.orderly.newest j v hv hlv
    omega
  · intro hs u hu
    obtain ⟨i, hi⟩ := List.mem_iff_getElem?.mp hu
    exact h.stopped hs i u hi

theorem stopped_started (G : CompiledGraph) : Stopped (.started G) := by
  refine ⟨orderly_started G, ?_⟩
  rintro ⟨⟩

theorem stopped_onTask {a : ActiveRun} (h : Stopped a) {i : Nat} {f : Task → Task}
    (hf : ∀ u, (f u).ended = none → u.ended = none) (hs : a.stopped = true) :
    ∀ (j : Nat) (v : Task), (a.tasks.modify i f)[j]? = some v → v.ended ≠ none := by
  intro j v hv hlive
  obtain ⟨u, hu, rfl⟩ := get_modify hv
  apply h.stopped hs j u hu
  split at hlive
  · exact hf u hlive
  · exact hlive

/-- Once the task of a cancel has ended, all tasks have. -/
theorem all_ended {a : ActiveRun} (h : Orderly a) {i : Nat} {u : Task} (hi : i ∈ a.cancels)
    (hu : a.tasks[i]? = some u) (hdone : u.ended ≠ none) :
    ∀ (j : Nat) (v : Task), a.tasks[j]? = some v → v.ended ≠ none := by
  intro j v hv hlive
  have hj := h.newest j v hv hlive
  have hwait := h.waits i hi
  obtain rfl : i = j := by omega
  rw [hu] at hv
  cases hv
  exact hdone hlive

theorem stopped_step {a b : ActiveRun} {action : Action} (h : Stopped a)
    (hp : Patient a action) (hstep : RunStep a action b) : Stopped b := by
  have horderly : Orderly b := by
    apply orderly_step h.orderly _ hstep
    rintro rfl
    exact hp
  refine ⟨horderly, ?_⟩
  cases action with
  | start graphName => exact hstep.elim
  | resume =>
    obtain ⟨-, rfl⟩ := hstep
    rintro ⟨⟩
  | cancel =>
    obtain ⟨-, rfl⟩ := hstep
    intro hs
    exact stopped_onTask h (fun u hu => by rwa [Task.ended_cancel] at hu) hs
  | cancelReturns j timedOut =>
    obtain ⟨i, u, hj, hu, htimeout, rfl⟩ := hstep
    have hpatient : timedOut = false := hp
    have hdone : u.ended ≠ none := by
      intro hlive
      rw [htimeout.mpr hlive] at hpatient
      cases hpatient
    intro _
    have hall := all_ended h.orderly (List.mem_of_getElem? hj) hu hdone
    unfold ActiveRun.cancelReturned
    simp only
    split
    · exact hall
    · exact hall
  | enters i =>
    obtain ⟨u, -, -, -, -, rfl⟩ := hstep
    intro hs
    exact stopped_onTask h (fun _ hu => hu) hs
  | ends i e =>
    obtain ⟨u, -, -, -, rfl⟩ := hstep
    intro hs
    have hon : ∀ (j : Nat) (v : Task), (a.tasks.modify i (Task.finish e))[j]? = some v →
        v.ended ≠ none := by
      cases e with
      | returned outcome => exact stopped_onTask h (by rintro u ⟨⟩) hs
      | cancelled => exact stopped_onTask h (by rintro u ⟨⟩) hs
    cases e with
    | returned outcome => exact hon
    | cancelled => exact hon

/-! ## The law -/

/-- As long as no run is resumed while it has a live task or a cancel waits,
and no cancel gives up, each run has at most one live task, and none after a
cancel was answered. -/
theorem patient_servers_are_exclusive (registry : Registry) (s : Server)
    (h : Reachable ((serverMachine registry).restrict (OnRuns Patient)) s) (runId : String)
    (a : ActiveRun) (ha : s.get? runId = some a) : Exclusive a :=
  exclusive_of_stopped
    (runs_invariant stopped_started (fun _ _ _ hI hP hstep => stopped_step hI hP hstep) h runId a
      ha)

/-- The table of graphs of a server with one graph. -/
def registry : Registry := Dict.ofList [("flow", oneStep)]

/-- The run after a start, a cancel that its task follows, and the answer. -/
def stoppedRun : ActiveRun :=
  ((ActiveRun.started oneStep).cancelling.taskEnded 0 .cancelled).cancelReturned 0
    ⟨false, true, some .cancelled⟩

theorem a_stopped_run_is_exclusive : Exclusive stoppedRun := by
  refine patient_servers_are_exclusive registry (tableWith stoppedRun) ?_ "r" stoppedRun rfl
  have hcancel : RunStep (.started oneStep) .cancel (ActiveRun.started oneStep).cancelling :=
    ⟨rfl, rfl⟩
  have hend : RunStep (ActiveRun.started oneStep).cancelling (.ends 0 .cancelled)
      ((ActiveRun.started oneStep).cancelling.taskEnded 0 .cancelled) := ⟨_, rfl, rfl, rfl, rfl⟩
  have hanswer : RunStep ((ActiveRun.started oneStep).cancelling.taskEnded 0 .cancelled)
      (.cancelReturns 0 false) stoppedRun :=
    ⟨0, ⟨false, true, some .cancelled⟩, rfl, rfl, by simp, rfl⟩
  have hstart : Reachable ((serverMachine registry).restrict (OnRuns Patient))
      (tableWith (.started oneStep)) :=
    (reachable_init rfl).step (tableWith_start registry oneStep Patient rfl)
  have hcancelled := hstart.step (tableWith_step rfl hcancel trivial)
  exact (hcancelled.step (tableWith_step rfl hend trivial)).step (tableWith_step rfl hanswer rfl)

/-! ## A run that is executed twice -/

/-- The run after a start and a resume right after it. -/
def resumedRun : ActiveRun := (ActiveRun.started oneStep).resumed

/-- The same run after a cancel, which stops only the newer task. -/
def halfStopped : ActiveRun :=
  (resumedRun.cancelling.taskEnded 1 .cancelled).cancelReturned 0 ⟨false, true, some .cancelled⟩

/-- A running run can be resumed, and then two tasks of it are live. A cancel
is then answered while the first one goes on. -/
theorem a_running_run_is_resumed :
    Reachable (serverMachine registry) (tableWith resumedRun) ∧ ¬ Exclusive resumedRun ∧
    Reachable (serverMachine registry) (tableWith halfStopped) ∧ halfStopped.stopped = true ∧
    ¬ Exclusive halfStopped := by
  have hresume : RunStep (.started oneStep) .resume resumedRun := ⟨by decide, rfl⟩
  have hcancel : RunStep resumedRun .cancel resumedRun.cancelling := ⟨rfl, rfl⟩
  have hend : RunStep resumedRun.cancelling (.ends 1 .cancelled)
      (resumedRun.cancelling.taskEnded 1 .cancelled) := ⟨_, rfl, rfl, rfl, rfl⟩
  have hanswer : RunStep (resumedRun.cancelling.taskEnded 1 .cancelled) (.cancelReturns 0 false)
      halfStopped := ⟨1, ⟨false, true, some .cancelled⟩, rfl, rfl, by simp, rfl⟩
  have hstart : Reachable ((serverMachine registry).restrict (OnRuns everyStep))
      (tableWith (.started oneStep)) :=
    (reachable_init rfl).step (tableWith_start registry oneStep everyStep rfl)
  have hresumed := hstart.step (tableWith_step rfl hresume trivial)
  have hcancelled := hresumed.step (tableWith_step rfl hcancel trivial)
  have hended := hcancelled.step (tableWith_step rfl hend trivial)
  have hanswered := hended.step (tableWith_step rfl hanswer trivial)
  refine ⟨hresumed.of_restrict, ?_, hanswered.of_restrict, rfl, ?_⟩
  · intro h
    have hsame := h.single 0 1 _ _ rfl rfl rfl rfl
    omega
  · intro h
    exact h.stopped rfl Task.new (List.mem_cons_self ..) rfl

end orchestra.exclusion
