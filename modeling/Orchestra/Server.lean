-- The run table of the server (`lifecycle.py` and the routes of runs): requests
-- to start, resume and cancel a run, the tasks that they make, and the status
-- that the table shows, in any order of their steps.
import Orchestra.Runs
import Orchestra.Lib.Machine

open dicts machine orchestra.state orchestra.compiled orchestra.runs

namespace orchestra.server

/-! ## The table -/

/-- `ActiveRun.status` -/
inductive RunStatus
  | running
  | completed
  | failed
  | cancelled
deriving DecidableEq

def RunStatus.text : RunStatus → String
  | running => "running"
  | completed => "completed"
  | failed => "failed"
  | cancelled => "cancelled"

/-- How a task ended: the engine returned or raised, or the task was
cancelled. -/
inductive TaskEnd
  | returned (outcome : Outcome)
  | cancelled

/-- A task. It enters the engine with its first step, and one that is cancelled
before never does. -/
structure Task where
  entered : Bool
  cancelRequested : Bool
  ended : Option TaskEnd

namespace Task

def new : Task := ⟨false, false, none⟩

/-- `task.cancel()`. A task that is done stays as it is. -/
def cancel (u : Task) : Task :=
  match u.ended with
  | none => { u with cancelRequested := true }
  | some _ => u

def enter (u : Task) : Task := { u with entered := true }

def finish (e : TaskEnd) (u : Task) : Task := { u with ended := some e }

/-- Only a task that entered the engine returns, and only one that was asked to
is cancelled. -/
def CanEnd (u : Task) : TaskEnd → Prop
  | .returned _ => u.entered = true
  | .cancelled => u.cancelRequested = true

@[simp] theorem ended_cancel (u : Task) : u.cancel.ended = u.ended := by
  unfold cancel
  split <;> rfl

end Task

/-- A run in the table, with all its tasks: the newest one, which is the `task`
of the source, is the last. A cancel that waits knows the number of the task
that it waits for. `stopped` says that a cancel was answered since the last
start or resume. -/
structure ActiveRun where
  graphName : String
  status : RunStatus
  tasks : List Task
  cancels : List Nat
  stopped : Bool

/-- `RunManager._runs` -/
abbrev Server := Dict String ActiveRun

/-- `GraphRegistry._graphs` -/
abbrev Registry := Dict String CompiledGraph

structure HTTPException where
  statusCode : Nat
  detail : String
deriving DecidableEq

namespace ActiveRun

/-- `start_run`. The table keeps the name that the graph has itself, which need
not be the one under which it is registered. -/
def started (G : CompiledGraph) : ActiveRun := ⟨workflowName G, .running, [Task.new], [], false⟩

def resumed (a : ActiveRun) : ActiveRun :=
  { a with
    status := .running
    tasks := a.tasks ++ [Task.new]
    stopped := false }

def onTask (a : ActiveRun) (i : Nat) (f : Task → Task) : ActiveRun :=
  { a with tasks := a.tasks.modify i f }

/-- The first half of `cancel_run`: cancel the newest task, and wait for it. -/
def cancelling (a : ActiveRun) : ActiveRun :=
  { a.onTask (a.tasks.length - 1) Task.cancel with cancels := a.cancels ++ [a.tasks.length - 1] }

/-- The error that leaves the wait of `cancel_run`. A timeout and a cancelled
task are caught, and so is a `TimeoutError` of the engine. -/
def uncaught (e : Option TaskEnd) : Bool :=
  match e with
  | some (.returned (.raised error)) => error.type ≠ "TimeoutError"
  | _ => false

/-- The second half of `cancel_run`, of the waiting cancel with the number `j`,
whose task is `u`. -/
def cancelReturned (a : ActiveRun) (j : Nat) (u : Task) : ActiveRun :=
  let a := { a with cancels := a.cancels.eraseIdx j }
  if uncaught u.ended then a else { a with status := .cancelled, stopped := true }

/-- What `_run_workflow` and `_resume_workflow` write to the status. They take
every result of the engine for a completed run. -/
def statusAfter : Outcome → RunStatus
  | .completed _ => .completed
  | .interrupted _ => .completed
  | .raised _ => .failed

/-- The end of a task. A cancelled one leaves the status as it is. -/
def taskEnded (a : ActiveRun) (i : Nat) (e : TaskEnd) : ActiveRun :=
  match e with
  | .returned outcome => { a.onTask i (.finish e) with status := statusAfter outcome }
  | .cancelled => a.onTask i (.finish e)

end ActiveRun

/-! ## The requests -/

def createRun (registry : Registry) (graphName runId : String) (s : Server) :
    Except HTTPException Server :=
  match registry.get? graphName with
  | none => .error ⟨404, "Graph '" ++ graphName ++ "' not found. " ++
      "Register it via GraphRegistry.register() before starting the server."⟩
  | some G => .ok (s.set runId (.started G))

def runNotFound (runId : String) : HTTPException := ⟨404, "Run '" ++ runId ++ "' not found."⟩

/-- `resume_run` -/
def resumeRun (registry : Registry) (runId : String) (s : Server) :
    Except HTTPException Server :=
  match s.get? runId with
  | none => .error (runNotFound runId)
  | some a =>
    if a.status = .completed then .error ⟨409, "Run '" ++ runId ++ "' already completed."⟩
    else
      match registry.get? a.graphName with
      | none => .error ⟨404, "Graph '" ++ a.graphName ++ "' no longer registered."⟩
      | some _ => .ok (s.set runId a.resumed)

/-- `cancel_run`, up to its wait. -/
def cancelRun (runId : String) (s : Server) : Except HTTPException Server :=
  match s.get? runId with
  | none => .error (runNotFound runId)
  | some a =>
    if a.status = .running then .ok (s.set runId a.cancelling)
    else .error ⟨409, "Run '" ++ runId ++ "' already " ++ a.status.text ++ "."⟩

/-! ## The steps -/

/-- A step of the server: a request that is accepted, the answer of a cancel,
the first step of a task, or its end. -/
inductive Action
  | start (graphName : String)
  | resume
  | cancel
  | cancelReturns (j : Nat) (timedOut : Bool)
  | enters (i : Nat)
  | ends (i : Nat) (e : TaskEnd)

/-- A step on a run that is in the table. A task whose cancel was requested may
still do anything: its nodes can hold the cancellation up or swallow it. -/
def RunStep (a : ActiveRun) : Action → ActiveRun → Prop
  | .start _, _ => False
  | .resume, b => a.status ≠ .completed ∧ b = a.resumed
  | .cancel, b => a.status = .running ∧ b = a.cancelling
  | .cancelReturns j timedOut, b => ∃ i u, a.cancels[j]? = some i ∧ a.tasks[i]? = some u ∧
    (timedOut = true ↔ u.ended = none) ∧ b = a.cancelReturned j u
  | .enters i, b => ∃ u, a.tasks[i]? = some u ∧ u.ended = none ∧ u.entered = false ∧
    u.cancelRequested = false ∧ b = a.onTask i .enter
  | .ends i e, b => ∃ u, a.tasks[i]? = some u ∧ u.ended = none ∧
    u.CanEnd e ∧ b = a.taskEnded i e

/-- The ids of runs are new ones, and every other step is on a run that is in
the table. -/
def serverMachine (registry : Registry) : Machine Server (String × Action) where
  init s := s = .empty
  step s label t :=
    match label with
    | (runId, .start graphName) =>
      s.get? runId = none ∧ createRun registry graphName runId s = .ok t
    | (runId, .resume) => resumeRun registry runId s = .ok t
    | (runId, .cancel) => cancelRun runId s = .ok t
    | (runId, action) => ∃ a b, s.get? runId = some a ∧ RunStep a action b ∧ t = s.set runId b

theorem server_step {registry : Registry} {s t : Server} {runId : String} {action : Action}
    (h : (serverMachine registry).step s (runId, action) t) :
    (s.get? runId = none ∧ ∃ G, t = s.set runId (.started G)) ∨
      ∃ a b, s.get? runId = some a ∧ RunStep a action b ∧ t = s.set runId b := by
  cases action with
  | start graphName =>
    obtain ⟨hnew, hc⟩ := h
    unfold createRun at hc
    split at hc
    · cases hc
    · rename_i G hG
      cases hc
      exact Or.inl ⟨hnew, G, rfl⟩
  | resume =>
    have hr : resumeRun registry runId s = .ok t := h
    unfold resumeRun at hr
    split at hr
    · cases hr
    rename_i a ha
    split at hr
    · cases hr
    rename_i hstatus
    split at hr
    · cases hr
    · cases hr
      exact Or.inr ⟨a, a.resumed, ha, ⟨hstatus, rfl⟩, rfl⟩
  | cancel =>
    have hr : cancelRun runId s = .ok t := h
    unfold cancelRun at hr
    split at hr
    · cases hr
    rename_i a ha
    split at hr
    · rename_i hstatus
      cases hr
      exact Or.inr ⟨a, a.cancelling, ha, ⟨hstatus, rfl⟩, rfl⟩
    · cases hr
  | cancelReturns j timedOut => exact Or.inr h
  | enters i => exact Or.inr h
  | ends i e => exact Or.inr h

/-- Every step on a run of the table is one of the server, if its graph is
registered under its own name. -/
theorem server_step_on {registry : Registry} {s : Server} {runId : String} {action : Action}
    {a b : ActiveRun} {G : CompiledGraph} (ha : s.get? runId = some a)
    (hG : registry.get? a.graphName = some G) (h : RunStep a action b) :
    (serverMachine registry).step s (runId, action) (s.set runId b) := by
  cases action with
  | start graphName => exact h.elim
  | resume =>
    obtain ⟨hstatus, rfl⟩ := h
    show resumeRun registry runId s = _
    unfold resumeRun
    simp only [ha, hstatus, if_false, hG]
  | cancel =>
    obtain ⟨hstatus, rfl⟩ := h
    show cancelRun runId s = _
    unfold cancelRun
    simp only [ha, hstatus, if_true]
  | cancelReturns j timedOut => exact ⟨a, b, ha, h, rfl⟩
  | enters i => exact ⟨a, b, ha, h, rfl⟩
  | ends i e => exact ⟨a, b, ha, h, rfl⟩

/-- A condition on the steps, by the run that a step is on. -/
def OnRuns (P : ActiveRun → Action → Prop) (s : Server) (label : String × Action) : Prop :=
  ∀ a, s.get? label.1 = some a → P a label.2

/-- What holds of a started run and is kept by every step that the condition
allows holds of every run in the table. -/
theorem runs_invariant {registry : Registry} {P : ActiveRun → Action → Prop}
    {I : ActiveRun → Prop} (hstart : ∀ G, I (.started G))
    (hstep : ∀ a action b, I a → P a action → RunStep a action b → I b) {s : Server}
    (h : Reachable ((serverMachine registry).restrict (OnRuns P)) s) :
    ∀ runId a, s.get? runId = some a → I a := by
  refine h.invariant (I := fun s => ∀ runId a, s.get? runId = some a → I a) ?_ ?_
  · rintro s rfl runId a ha
    rw [Dict.get?_empty] at ha
    cases ha
  · rintro s ⟨runId, action⟩ t hs ⟨hst, hallowed⟩ j b hb
    have hset : ∀ c, t = s.set runId c → I c → I b := by
      rintro c rfl hc
      by_cases hj : runId = j
      · subst hj
        rw [Dict.get?_set_self] at hb
        cases hb
        exact hc
      · rw [Dict.get?_set_ne s c hj] at hb
        exact hs j b hb
    rcases server_step hst with ⟨-, G, ht⟩ | ⟨a, c, ha, hrun, ht⟩
    · exact hset _ ht (hstart G)
    · exact hset c ht (hstep a action c (hs runId a ha) (hallowed a ha) hrun)

/-! ## The tasks of a run -/

section lists

variable {β : Type}

/-- An entry after a change of the entry with the number `i`. -/
theorem get_modify {l : List β} {i j : Nat} {f : β → β} {v : β}
    (h : (l.modify i f)[j]? = some v) : ∃ u, l[j]? = some u ∧ v = if i = j then f u else u := by
  rw [List.getElem?_modify] at h
  obtain ⟨u, hu, rfl⟩ := Option.map_eq_some_iff.mp h
  exact ⟨u, hu, rfl⟩

theorem get_set {l : List β} {i j : Nat} {u v : β} (h : (l.set i u)[j]? = some v) :
    (j = i ∧ v = u) ∨ (j ≠ i ∧ l[j]? = some v) := by
  by_cases hj : i = j
  · subst hj
    rw [List.getElem?_set_self'] at h
    obtain ⟨w, -, rfl⟩ := Option.map_eq_some_iff.mp h
    exact Or.inl ⟨rfl, rfl⟩
  · rw [List.getElem?_set_ne hj] at h
    exact Or.inr ⟨fun hji => hj hji.symm, h⟩

theorem get_concat {l : List β} {u v : β} {j : Nat} (h : (l ++ [u])[j]? = some v) :
    l[j]? = some v ∨ (j = l.length ∧ v = u) := by
  rcases Nat.lt_or_ge j l.length with hj | hj
  · rw [List.getElem?_append_left hj] at h
    exact Or.inl h
  · rw [List.getElem?_append_right hj] at h
    have hlt : j - l.length < 1 := (List.getElem?_eq_some_iff.mp h).1
    have hzero : j - l.length = 0 := by omega
    rw [hzero] at h
    cases h
    exact Or.inr ⟨by omega, rfl⟩

theorem lt_of_get {l : List β} {i : Nat} {u : β} (h : l[i]? = some u) : i < l.length :=
  (List.getElem?_eq_some_iff.mp h).1

end lists

/-- No task of the run is live, and no cancel of it waits. -/
def Calm (a : ActiveRun) : Prop := (∀ u ∈ a.tasks, u.ended ≠ none) ∧ a.cancels = []

/-- Only the newest task is live, and every cancel waits for it. -/
structure Orderly (a : ActiveRun) : Prop where
  tasked : a.tasks ≠ []
  newest : ∀ i u, a.tasks[i]? = some u → u.ended = none → i + 1 = a.tasks.length
  waits : ∀ i ∈ a.cancels, i + 1 = a.tasks.length

theorem orderly_started (G : CompiledGraph) : Orderly (.started G) := by
  refine ⟨by simp [ActiveRun.started], ?_, ?_⟩
  · intro i u hu _
    have := lt_of_get hu
    simp only [ActiveRun.started, List.length_singleton] at this ⊢
    omega
  · rintro i ⟨⟩

theorem orderly_onTask {a : ActiveRun} (h : Orderly a) {i : Nat} {f : Task → Task}
    (hf : ∀ u, (f u).ended = none → u.ended = none) : Orderly (a.onTask i f) := by
  refine ⟨?_, ?_, ?_⟩
  · intro hnil
    have hlen := congrArg List.length hnil
    simp only [ActiveRun.onTask, List.length_modify, List.length_nil] at hlen
    exact h.tasked (List.length_eq_zero_iff.mp hlen)
  · intro j v hv hlive
    obtain ⟨u, hu, rfl⟩ := get_modify hv
    simp only [ActiveRun.onTask, List.length_modify]
    apply h.newest j u hu
    split at hlive
    · exact hf u hlive
    · exact hlive
  · intro j hj
    simp only [ActiveRun.onTask, List.length_modify]
    exact h.waits j hj

/-- Every step keeps the order, when a run is resumed only where it is calm. -/
theorem orderly_step {a b : ActiveRun} {action : Action} (h : Orderly a)
    (hcalm : action = .resume → Calm a) (hstep : RunStep a action b) : Orderly b := by
  cases action with
  | start graphName => exact hstep.elim
  | resume =>
    obtain ⟨-, rfl⟩ := hstep
    obtain ⟨hdone, hnone⟩ := hcalm rfl
    refine ⟨by simp [ActiveRun.resumed], ?_, ?_⟩
    · intro i u hu hlive
      simp only [ActiveRun.resumed, List.length_append, List.length_singleton]
      rcases get_concat hu with hold | ⟨hi, -⟩
      · exact absurd hlive (hdone u (List.mem_of_getElem? hold))
      · omega
    · intro i hi
      simp only [ActiveRun.resumed, hnone] at hi
      cases hi
  | cancel =>
    obtain ⟨-, rfl⟩ := hstep
    have hon := orderly_onTask (i := a.tasks.length - 1) h (f := Task.cancel)
      (fun u hu => by rwa [Task.ended_cancel] at hu)
    refine ⟨hon.tasked, hon.newest, ?_⟩
    intro i hi
    have hlen : a.tasks.length ≠ 0 := fun h0 => h.tasked (List.length_eq_zero_iff.mp h0)
    simp only [ActiveRun.cancelling, ActiveRun.onTask, List.length_modify]
    rcases List.mem_append.mp hi with hi | hi
    · exact h.waits i hi
    · rw [List.mem_singleton.mp hi]
      omega
  | cancelReturns j timedOut =>
    obtain ⟨i, u, -, -, -, rfl⟩ := hstep
    have hwaits : ∀ i ∈ a.cancels.eraseIdx j, i + 1 = a.tasks.length :=
      fun i hi => h.waits i (List.mem_of_mem_eraseIdx hi)
    unfold ActiveRun.cancelReturned
    simp only
    split
    · exact ⟨h.tasked, h.newest, hwaits⟩
    · exact ⟨h.tasked, h.newest, hwaits⟩
  | enters i =>
    obtain ⟨u, -, -, -, -, rfl⟩ := hstep
    exact orderly_onTask h (fun _ hu => hu)
  | ends i e =>
    obtain ⟨u, -, -, -, rfl⟩ := hstep
    have hon := orderly_onTask (i := i) h (f := Task.finish e) (by rintro u ⟨⟩)
    cases e with
    | returned outcome => exact ⟨hon.tasked, hon.newest, hon.waits⟩
    | cancelled => exact hon

/-! ## A table with one run -/

/-- One step without a state class. -/
def oneStep : CompiledGraph where
  nodes := Dict.ofList [("work", .function (pureNode "work" fun _ => .empty))]
  edges := [.plain "work" .END]
  entryPoint := "work"
  schema := none
  maxTurns := 50
  name := "flow"
  handoffEdges := []

def tableWith (a : ActiveRun) : Server := Dict.ofList [("r", a)]

theorem tableWith_start (registry : Registry) (G : CompiledGraph)
    (P : ActiveRun → Action → Prop) (hG : registry.get? (workflowName G) = some G) :
    ((serverMachine registry).restrict (OnRuns P)).step .empty ("r", .start (workflowName G))
      (tableWith (.started G)) := by
  refine ⟨⟨rfl, ?_⟩, ?_⟩
  · unfold createRun
    rw [hG]
    rfl
  · rintro a ⟨⟩

theorem tableWith_step {registry : Registry} {P : ActiveRun → Action → Prop} {a b : ActiveRun}
    {action : Action} {G : CompiledGraph} (hG : registry.get? a.graphName = some G)
    (h : RunStep a action b) (hP : P a action) :
    ((serverMachine registry).restrict (OnRuns P)).step (tableWith a) ("r", action)
      (tableWith b) := by
  refine ⟨server_step_on rfl hG h, ?_⟩
  rintro c ⟨⟩
  exact hP

end orchestra.server
