-- The law of the status of a run. Its two writers take every result of the
-- engine for a completed run, an interrupted one too, and a cancel that comes
-- late writes over them.
import Orchestra.Pauses
import Orchestra.Server

open dicts machine orchestra.state orchestra.compiled orchestra.runs orchestra.server

namespace orchestra.statuses

/-! ## What the law says -/

/-- The task of the last call of the engine, the newest one that entered it. -/
def LastCall (a : ActiveRun) (u : Task) : Prop :=
  ∃ i : Nat, a.tasks[i]? = some u ∧ u.entered = true ∧
    ∀ (j : Nat) (v : Task), i < j → a.tasks[j]? = some v → v.entered = false

/-- The engine returned a completed run. -/
def ReachedEnd (u : Task) : Prop := ∃ state, u.ended = some (.returned (.completed state))

/-- The engine returned an interrupted run. -/
def Paused (u : Task) : Prop := ∃ p, u.ended = some (.returned (.interrupted p))

/-- The status says `completed` exactly when the last call of the engine
reached the end, and a run that it returned as interrupted can be resumed. -/
structure Truthful (registry : Registry) (s : Server) (runId : String) (a : ActiveRun) :
    Prop where
  completed : a.status = .completed ↔ ∃ u, LastCall a u ∧ ReachedEnd u
  paused : ∀ u, LastCall a u → Paused u →
    a.status ≠ .completed ∧ ∃ t, resumeRun registry runId s = .ok t

/-- The engine never returns an interrupted run, a task whose cancel was
requested does not reach the end, and a run is resumed only when it is calm. -/
def Plain (a : ActiveRun) : Action → Prop
  | .resume => Calm a
  | .ends i (.returned outcome) => (∀ p, outcome ≠ .interrupted p) ∧
    ∀ (u : Task) (state : PyDict), a.tasks[i]? = some u → u.cancelRequested = true →
      outcome ≠ .completed state
  | _ => True

/-! ## The invariant -/

/-- What an ended task has: it entered the engine, which did not interrupt it,
and if it reached the end no cancel was requested and it is the newest of
`count` tasks. -/
structure Ended (count i : Nat) (u : Task) : Prop where
  unpaused : ¬ Paused u
  entered : ReachedEnd u → u.entered = true
  uncancelled : ReachedEnd u → u.cancelRequested = false
  newest : ReachedEnd u → i + 1 = count

structure Honest (a : ActiveRun) : Prop where
  orderly : Orderly a
  ended : ∀ (i : Nat) (u : Task), a.tasks[i]? = some u → Ended a.tasks.length i u
  status : a.status = .completed ↔ ∃ u ∈ a.tasks, ReachedEnd u
  waits : ∀ i ∈ a.cancels, ∀ u : Task, a.tasks[i]? = some u →
    u.cancelRequested = true ∨ (u.ended ≠ none ∧ ¬ ReachedEnd u)

theorem truthful_of_honest {registry : Registry} {s : Server} {runId : String} {a : ActiveRun}
    (h : Honest a) : Truthful registry s runId a := by
  refine ⟨?_, ?_⟩
  · rw [h.status]
    constructor
    · rintro ⟨u, hu, hend⟩
      obtain ⟨i, hi⟩ := List.mem_iff_getElem?.mp hu
      have hended := h.ended i u hi
      refine ⟨u, ⟨i, hi, hended.entered hend, ?_⟩, hend⟩
      intro j v hj hv
      have hnewest := hended.newest hend
      have hlt := lt_of_get hv
      omega
    · rintro ⟨u, ⟨i, hi, -, -⟩, hend⟩
      exact ⟨u, List.mem_of_getElem? hi, hend⟩
  · rintro u ⟨i, hi, -, -⟩ hpaused
    exact absurd hpaused (h.ended i u hi).unpaused

theorem not_reached_of_live {u : Task} (h : u.ended = none) : ¬ ReachedEnd u := by
  rintro ⟨state, hstate⟩
  rw [h] at hstate
  cases hstate

theorem not_paused_of_live {u : Task} (h : u.ended = none) : ¬ Paused u := by
  rintro ⟨p, hp⟩
  rw [h] at hp
  cases hp

theorem ended_of_live (count i : Nat) {u : Task} (h : u.ended = none) : Ended count i u :=
  ⟨not_paused_of_live h, fun he => absurd he (not_reached_of_live h),
    fun he => absurd he (not_reached_of_live h), fun he => absurd he (not_reached_of_live h)⟩

theorem honest_started (G : CompiledGraph) : Honest (.started G) := by
  have htask : ∀ u ∈ (ActiveRun.started G).tasks, u = Task.new :=
    fun u hu => List.mem_singleton.mp hu
  refine ⟨orderly_started G, ?_, ?_, ?_⟩
  · intro i u hu
    rw [htask u (List.mem_of_getElem? hu)]
    exact ended_of_live _ i rfl
  · constructor
    · rintro ⟨⟩
    · rintro ⟨u, hu, hend⟩
      rw [htask u hu] at hend
      exact absurd hend (not_reached_of_live rfl)
  · rintro i ⟨⟩

/-- A change of one task that does not touch how it ended. -/
theorem ended_onTask {a : ActiveRun} {i : Nat} {f : Task → Task} (h : Honest a)
    (hf : ∀ u : Task, a.tasks[i]? = some u → (f u).ended = u.ended ∧
      (ReachedEnd u → (f u).entered = u.entered ∧ (f u).cancelRequested = u.cancelRequested)) :
    (∀ (j : Nat) (v : Task), (a.onTask i f).tasks[j]? = some v →
      Ended (a.onTask i f).tasks.length j v) ∧
      ((∃ v ∈ (a.onTask i f).tasks, ReachedEnd v) ↔ ∃ u ∈ a.tasks, ReachedEnd u) := by
  have hsame : ∀ (j : Nat) (u : Task), a.tasks[j]? = some u →
      ((if i = j then f u else u).ended = u.ended ∧
        (ReachedEnd u → (if i = j then f u else u).entered = u.entered ∧
          (if i = j then f u else u).cancelRequested = u.cancelRequested)) := by
    intro j u hu
    by_cases hij : i = j
    · subst hij
      rw [if_pos rfl]
      exact hf u hu
    · rw [if_neg hij]
      exact ⟨rfl, fun _ => ⟨rfl, rfl⟩⟩
  refine ⟨?_, ?_, ?_⟩
  · intro j v hv
    obtain ⟨u, hu, rfl⟩ := get_modify hv
    obtain ⟨hended, hrest⟩ := hsame j u hu
    have hold := h.ended j u hu
    have hback : ReachedEnd (if i = j then f u else u) → ReachedEnd u := by
      rintro ⟨state, hstate⟩
      exact ⟨state, hended ▸ hstate⟩
    refine ⟨?_, ?_, ?_, ?_⟩
    · rintro ⟨p, hp⟩
      exact hold.unpaused ⟨p, hended ▸ hp⟩
    · intro hend
      rw [(hrest (hback hend)).1]
      exact hold.entered (hback hend)
    · intro hend
      rw [(hrest (hback hend)).2]
      exact hold.uncancelled (hback hend)
    · intro hend
      simp only [ActiveRun.onTask, List.length_modify]
      exact hold.newest (hback hend)
  · rintro ⟨v, hv, state, hstate⟩
    obtain ⟨j, hj⟩ := List.mem_iff_getElem?.mp hv
    obtain ⟨u, hu, rfl⟩ := get_modify hj
    exact ⟨u, List.mem_of_getElem? hu, state, (hsame j u hu).1 ▸ hstate⟩
  · rintro ⟨u, hu, state, hstate⟩
    obtain ⟨j, hj⟩ := List.mem_iff_getElem?.mp hu
    refine ⟨if i = j then f u else u, ?_, state, (hsame j u hj).1.trans hstate⟩
    refine List.mem_of_getElem? (i := j) ?_
    simp only [ActiveRun.onTask, List.getElem?_modify, hj]
    rfl

/-! ## The steps -/

/-- Of two tasks that reached the end or are live, one is the other. -/
theorem reached_is {a : ActiveRun} (h : Honest a) {i j : Nat} {u v : Task}
    (hi : i + 1 = a.tasks.length) (hu : a.tasks[i]? = some u) (hv : a.tasks[j]? = some v)
    (hend : ReachedEnd v) : u = v := by
  have hj := (h.ended j v hv).newest hend
  obtain rfl : i = j := by omega
  exact Option.some.inj (hu.symm.trans hv)

theorem honest_resume {a : ActiveRun} (h : Honest a) (horderly : Orderly a.resumed)
    (hcalm : Calm a) (hstatus : a.status ≠ .completed) : Honest a.resumed := by
  have hnone : ∀ u ∈ a.tasks, ¬ ReachedEnd u := fun u hu hend =>
    hstatus (h.status.mpr ⟨u, hu, hend⟩)
  refine ⟨horderly, ?_, ?_, ?_⟩
  · intro i u hu
    rcases get_concat hu with hold | ⟨-, rfl⟩
    · have hended := h.ended i u hold
      have hnot := hnone u (List.mem_of_getElem? hold)
      exact ⟨hended.unpaused, hended.entered, hended.uncancelled, fun hend => absurd hend hnot⟩
    · exact ended_of_live _ i rfl
  · constructor
    · rintro ⟨⟩
    · rintro ⟨u, hu, hend⟩
      rcases List.mem_append.mp hu with hu | hu
      · exact absurd hend (hnone u hu)
      · rw [List.mem_singleton.mp hu] at hend
        exact absurd hend (not_reached_of_live rfl)
  · intro i hi
    simp only [ActiveRun.resumed, hcalm.2] at hi
    cases hi

theorem cancel_reached {u : Task} (h : ReachedEnd u) : u.cancel = u := by
  obtain ⟨state, hstate⟩ := h
  unfold Task.cancel
  rw [hstate]

theorem honest_cancel {a : ActiveRun} (h : Honest a) (horderly : Orderly a.cancelling)
    (hstatus : a.status = .running) : Honest a.cancelling := by
  have hnone : ∀ u ∈ a.tasks, ¬ ReachedEnd u := by
    intro u hu hend
    have := h.status.mpr ⟨u, hu, hend⟩
    rw [hstatus] at this
    cases this
  obtain ⟨hended, hreached⟩ := ended_onTask (i := a.tasks.length - 1) (f := Task.cancel) h
    (fun u _ => ⟨Task.ended_cancel u, fun hend => by rw [cancel_reached hend]; exact ⟨rfl, rfl⟩⟩)
  refine ⟨horderly, hended, ?_, ?_⟩
  · exact h.status.trans hreached.symm
  · intro i hi v hv
    obtain ⟨u, hu, rfl⟩ := get_modify hv
    have hnot := hnone u (List.mem_of_getElem? hu)
    have hlt := lt_of_get hu
    have hwait : i + 1 = a.tasks.length := by
      have := horderly.waits i hi
      simp only [ActiveRun.cancelling, ActiveRun.onTask, List.length_modify] at this
      exact this
    rw [if_pos (by omega)]
    rcases he : u.ended with _ | e
    · refine Or.inl ?_
      unfold Task.cancel
      rw [he]
    · refine Or.inr ⟨by simp [he], ?_⟩
      rintro ⟨state, hstate⟩
      rw [Task.ended_cancel] at hstate
      exact hnot ⟨state, hstate⟩

theorem honest_cancelReturned {a : ActiveRun} (h : Honest a) {i j : Nat} {u : Task}
    (horderly : Orderly (a.cancelReturned j u)) (hj : a.cancels[j]? = some i)
    (hu : a.tasks[i]? = some u) : Honest (a.cancelReturned j u) := by
  have hmem := List.mem_of_getElem? hj
  have hlast := h.orderly.waits i hmem
  have hnone : ∀ v ∈ a.tasks, ¬ ReachedEnd v := by
    intro v hv hend
    obtain ⟨k, hk⟩ := List.mem_iff_getElem?.mp hv
    obtain rfl := reached_is h hlast hu hk hend
    rcases h.waits i hmem u hu with hreq | ⟨-, hnot⟩
    · have := (h.ended i u hu).uncancelled hend
      rw [hreq] at this
      cases this
    · exact hnot hend
  have hwaits : ∀ k ∈ a.cancels.eraseIdx j, ∀ v : Task, a.tasks[k]? = some v →
      v.cancelRequested = true ∨ (v.ended ≠ none ∧ ¬ ReachedEnd v) :=
    fun k hk => h.waits k (List.mem_of_mem_eraseIdx hk)
  unfold ActiveRun.cancelReturned at horderly ⊢
  simp only at horderly ⊢
  split at horderly <;> rename_i huncaught <;> simp only [huncaught]
  · exact ⟨horderly, fun k v hv =>
      let e := h.ended k v hv
      ⟨e.unpaused, e.entered, e.uncancelled, e.newest⟩, h.status, hwaits⟩
  · refine ⟨horderly, fun k v hv =>
      let e := h.ended k v hv
      ⟨e.unpaused, e.entered, e.uncancelled, e.newest⟩, ⟨?_, ?_⟩, hwaits⟩
    · rintro ⟨⟩
    · rintro ⟨v, hv, hend⟩
      exact absurd hend (hnone v hv)

theorem honest_enters {a : ActiveRun} (h : Honest a) {i : Nat} {u : Task}
    (horderly : Orderly (a.onTask i .enter)) (hu : a.tasks[i]? = some u) (hlive : u.ended = none) :
    Honest (a.onTask i .enter) := by
  obtain ⟨hended, hreached⟩ := ended_onTask (i := i) (f := Task.enter) h (by
    intro v hv
    rw [hu] at hv
    cases hv
    exact ⟨rfl, fun hend => absurd hend (not_reached_of_live hlive)⟩)
  refine ⟨horderly, hended, h.status.trans hreached.symm, ?_⟩
  intro k hk v hv
  obtain ⟨w, hw, rfl⟩ := get_modify hv
  have hold := h.waits k hk w hw
  split
  · exact hold
  · exact hold

/-- The task that ends, if it is the newest one. -/
theorem ended_finish {a : ActiveRun} {i : Nat} {e : TaskEnd} {u : Task}
    (hplain : Plain a (.ends i e)) (hu : a.tasks[i]? = some u) (hcan : u.CanEnd e)
    (hlast : i + 1 = a.tasks.length) : Ended a.tasks.length i (Task.finish e u) := by
  refine ⟨?_, ?_, ?_, fun _ => hlast⟩
  · rintro ⟨p, hp⟩
    cases e with
    | returned outcome =>
      cases hp
      exact hplain.1 p rfl
    | cancelled => cases hp
  · rintro ⟨state, hstate⟩
    cases e with
    | returned outcome => exact hcan
    | cancelled => cases hstate
  · rintro ⟨state, hstate⟩
    cases e with
    | returned outcome =>
      cases hstate
      rcases hreq : u.cancelRequested with _ | _
      · exact hreq
      · exact absurd rfl (hplain.2 u state hu hreq)
    | cancelled => cases hstate

theorem status_taskEnded {a : ActiveRun} {i : Nat} {e : TaskEnd} (u : Task)
    (hplain : Plain a (.ends i e)) (hstatus : a.status ≠ .completed) :
    (a.taskEnded i e).status = .completed ↔ ReachedEnd (Task.finish e u) := by
  cases e with
  | returned outcome =>
    cases outcome with
    | completed state => exact ⟨fun _ => ⟨state, rfl⟩, fun _ => rfl⟩
    | interrupted p => exact absurd rfl (hplain.1 p)
    | raised error =>
      constructor
      · rintro ⟨⟩
      · rintro ⟨state, ⟨⟩⟩
  | cancelled =>
    constructor
    · intro h
      exact absurd h hstatus
    · rintro ⟨state, ⟨⟩⟩

theorem honest_ends {a : ActiveRun} (h : Honest a) {i : Nat} {e : TaskEnd} {u : Task}
    (horderly : Orderly (a.taskEnded i e)) (hplain : Plain a (.ends i e))
    (hu : a.tasks[i]? = some u) (hlive : u.ended = none)
    (hcan : u.CanEnd e) : Honest (a.taskEnded i e) := by
  have hlast := h.orderly.newest i u hu hlive
  have hnone : ∀ v ∈ a.tasks, ¬ ReachedEnd v := by
    intro v hv hend
    obtain ⟨k, hk⟩ := List.mem_iff_getElem?.mp hv
    obtain rfl := reached_is h hlast hu hk hend
    exact not_reached_of_live hlive hend
  have htasks : (a.taskEnded i e).tasks = a.tasks.modify i (Task.finish e) := by
    cases e <;> rfl
  have hcancels : (a.taskEnded i e).cancels = a.cancels := by
    cases e <;> rfl
  have hthis : (a.tasks.modify i (Task.finish e))[i]? = some (Task.finish e u) := by
    rw [List.getElem?_modify_eq, hu]
    rfl
  -- a task of the run after the step is the one that ended, or an older one
  have hcases : ∀ (k : Nat) (v : Task), (a.tasks.modify i (Task.finish e))[k]? = some v →
      (k = i ∧ v = Task.finish e u) ∨ (a.tasks[k]? = some v ∧ ¬ ReachedEnd v) := by
    intro k v hv
    obtain ⟨w, hw, rfl⟩ := get_modify hv
    by_cases hik : i = k
    · subst hik
      rw [hu] at hw
      cases hw
      exact Or.inl ⟨rfl, if_pos rfl⟩
    · rw [if_neg hik]
      exact Or.inr ⟨hw, hnone w (List.mem_of_getElem? hw)⟩
  refine ⟨horderly, ?_, ?_, ?_⟩
  · intro k v hv
    rw [htasks] at hv ⊢
    rw [List.length_modify]
    rcases hcases k v hv with ⟨rfl, rfl⟩ | ⟨hold, hnot⟩
    · exact ended_finish hplain hu hcan hlast
    · have hended := h.ended k v hold
      exact ⟨hended.unpaused, hended.entered, hended.uncancelled, fun hend => absurd hend hnot⟩
  · have hstatus : a.status ≠ .completed := by
      intro hcompleted
      obtain ⟨v, hv, hend⟩ := h.status.mp hcompleted
      exact hnone v hv hend
    rw [htasks, status_taskEnded u hplain hstatus]
    constructor
    · intro hend
      exact ⟨_, List.mem_of_getElem? hthis, hend⟩
    · rintro ⟨v, hv, hend⟩
      obtain ⟨k, hk⟩ := List.mem_iff_getElem?.mp hv
      rcases hcases k v hk with ⟨-, rfl⟩ | ⟨-, hnot⟩
      · exact hend
      · exact absurd hend hnot
  · intro k hk v hv
    rw [hcancels] at hk
    rw [htasks] at hv
    have hlen := h.orderly.waits k hk
    obtain rfl : k = i := by omega
    rw [hthis] at hv
    cases hv
    rcases h.waits k hk u hu with hreq | ⟨hdone, -⟩
    · exact Or.inl hreq
    · exact absurd hlive hdone

theorem honest_step {a b : ActiveRun} {action : Action} (h : Honest a) (hp : Plain a action)
    (hstep : RunStep a action b) : Honest b := by
  have horderly : Orderly b := by
    apply orderly_step h.orderly _ hstep
    rintro rfl
    exact hp
  cases action with
  | start graphName => exact hstep.elim
  | resume =>
    obtain ⟨hstatus, rfl⟩ := hstep
    exact honest_resume h horderly hp hstatus
  | cancel =>
    obtain ⟨hstatus, rfl⟩ := hstep
    exact honest_cancel h horderly hstatus
  | cancelReturns j timedOut =>
    obtain ⟨i, u, hj, hu, -, rfl⟩ := hstep
    exact honest_cancelReturned h horderly hj hu
  | enters i =>
    obtain ⟨u, hu, hlive, -, -, rfl⟩ := hstep
    exact honest_enters h horderly hu hlive
  | ends i e =>
    obtain ⟨u, hu, hlive, hcan, rfl⟩ := hstep
    exact honest_ends h horderly hp hu hlive hcan

/-- As long as the engine never returns an interrupted run, no cancelled task
reaches the end and no run is resumed while it is busy, the status of every run
is truthful. -/
theorem plain_servers_are_truthful (registry : Registry) (s : Server)
    (h : Reachable ((serverMachine registry).restrict (OnRuns Plain)) s) (runId : String)
    (a : ActiveRun) (ha : s.get? runId = some a) : Truthful registry s runId a :=
  truthful_of_honest
    (runs_invariant honest_started (fun _ _ _ hI hP hstep => honest_step hI hP hstep) h runId a ha)

/-- The table of graphs of a server with one graph. -/
def registry : Registry := Dict.ofList [("flow", oneStep)]

/-- The run after its task went through the engine. -/
def completedRun : ActiveRun :=
  ((ActiveRun.started oneStep).onTask 0 .enter).taskEnded 0 (.returned (.completed .empty))

theorem a_completed_run_is_truthful :
    Truthful registry (tableWith completedRun) "r" completedRun := by
  refine plain_servers_are_truthful registry (tableWith completedRun) ?_ "r" completedRun rfl
  have henter : RunStep (.started oneStep) (.enters 0)
      ((ActiveRun.started oneStep).onTask 0 .enter) := ⟨_, rfl, rfl, rfl, rfl, rfl⟩
  have hend : RunStep ((ActiveRun.started oneStep).onTask 0 .enter)
      (.ends 0 (.returned (.completed .empty))) completedRun := ⟨_, rfl, rfl, rfl, rfl⟩
  have hplain : Plain ((ActiveRun.started oneStep).onTask 0 .enter)
      (.ends 0 (.returned (.completed .empty))) := by
    refine ⟨?_, ?_⟩
    · rintro p ⟨⟩
    · intro u state hu hreq
      cases hu
      cases hreq
  have hstart : Reachable ((serverMachine registry).restrict (OnRuns Plain))
      (tableWith (.started oneStep)) :=
    (reachable_init rfl).step (tableWith_start registry oneStep Plain rfl)
  exact (hstart.step (tableWith_step rfl henter trivial)).step (tableWith_step rfl hend hplain)

/-! ## A paused run that is shown as completed -/

def askingRegistry : Registry := Dict.ofList [("workflow", pauses.asking)]

/-- What the engine returns for the graph that pauses after its only node. -/
def askingOutcome : Outcome :=
  (sessions.firstRun pauses.asking "r" inOrder (plainInput .empty)).outcome

def askedRun : ActiveRun :=
  ((ActiveRun.started pauses.asking).onTask 0 .enter).taskEnded 0 (.returned askingOutcome)

/-- The engine returns an interrupted run. Its status is `completed`, and the
resume is refused. -/
theorem a_paused_run_is_shown_as_completed :
    Reachable (serverMachine askingRegistry) (tableWith askedRun) ∧
    askedRun.status = .completed ∧
    resumeRun askingRegistry "r" (tableWith askedRun) =
      .error ⟨409, "Run 'r' already completed."⟩ ∧
    ¬ Truthful askingRegistry (tableWith askedRun) "r" askedRun := by
  have henter : RunStep (.started pauses.asking) (.enters 0)
      ((ActiveRun.started pauses.asking).onTask 0 .enter) := ⟨_, rfl, rfl, rfl, rfl, rfl⟩
  have hend : RunStep ((ActiveRun.started pauses.asking).onTask 0 .enter)
      (.ends 0 (.returned askingOutcome)) askedRun := ⟨_, rfl, rfl, rfl, rfl⟩
  have hstart : Reachable ((serverMachine askingRegistry).restrict (OnRuns everyStep))
      (tableWith (.started pauses.asking)) :=
    (reachable_init rfl).step (tableWith_start askingRegistry pauses.asking everyStep rfl)
  have hentered := hstart.step (tableWith_step rfl henter trivial)
  have hended := hentered.step (tableWith_step rfl hend trivial)
  have hstatus : askedRun.status = .completed := rfl
  refine ⟨hended.of_restrict, hstatus, rfl, ?_⟩
  intro h
  have hcall : LastCall askedRun ⟨true, false, some (.returned askingOutcome)⟩ := by
    refine ⟨0, rfl, rfl, ?_⟩
    intro j v hj hv
    have hlt := lt_of_get hv
    have hlen : askedRun.tasks.length = 1 := rfl
    omega
  exact (h.paused _ hcall ⟨_, rfl⟩).1 hstatus

end orchestra.statuses
