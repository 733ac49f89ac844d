-- What the eviction of old runs does to the others (`orchestra_tprm/server/app.py`): the messages
-- that a run puts on its stream, compared with those of the run alone, and the size of the
-- registry after each POST.
import Mathlib.Data.List.Basic
import Orchestra.Lib.Text
import Orchestra.Tprm.Server

open dicts machine texts orchestra.tprm.server

namespace orchestra.tprm.run_registry

/-- The run whose task takes the step. -/
def taskOf : Action → Option String
  | .start runId _ | .poll runId _ | .finish runId _ _ => some runId
  | _ => none

/-- Where the task stands before the step. -/
def needs : Action → TaskPhase
  | .poll .. | .finish .. => .polling
  | _ => .created

/-- Where it stands after it. -/
def reached (registered : Bool) : Action → TaskPhase
  | .start _ none => if registered then .polling else .ended
  | .poll .. => .polling
  | _ => .ended

/-- The status that it writes. -/
def written (registered : Bool) : Action → Option RunStatus
  | .start _ none => if registered then some .running else some .error
  | .start _ (some _) => some .error
  | .finish _ _ outcome => some (Server.statusOf outcome)
  | _ => none

/-- What it puts on the stream. A run that is not in the registry raises where it writes its
status, and again where it handles that error. -/
def pushed (registered : Bool) : Action → List (Option Event)
  | .start _ none => if registered then [some .started] else [some .started, some .done, none]
  | .start _ (some message) =>
    some .started :: if registered then ending (.error message) else [some .done, none]
  | .poll _ nodes => (nodes.map Event.nodeDone).map some
  | .finish _ nodes outcome => (nodes.map Event.nodeDone).map some ++
      if registered then ending (Server.outcomeOf outcome) else [some .done, none]
  | _ => []

variable {s t : Server} {a : Action} {runId : String}

theorem atRun_eq_some_iff {f : Run → Option Run} : s.atRun runId f = some t ↔
    ∃ r r', s.runs.get? runId = some r ∧ f r = some r' ∧
      t = { s with runs := s.runs.set runId r' } := by
  unfold Server.atRun
  simp only [Option.bind_eq_bind, Option.bind_eq_some_iff, Option.some.injEq]
  constructor
  · rintro ⟨r, hr, r', hr', rfl⟩
    exact ⟨r, r', hr, hr', rfl⟩
  · rintro ⟨r, r', hr, hr', rfl⟩
    exact ⟨r, hr, r', hr', rfl⟩

/-- `_runs[run_id]["status"] = status`, where a step writes one. -/
def record (s : Server) (runId : String) : Option RunStatus → Server
  | some status => s.setStatus runId status
  | none => s

theorem record_runs (s : Server) (runId : String) (status : Option RunStatus) :
    (record s runId status).runs = s.runs ∧ (record s runId status).now = s.now := by
  unfold record Server.setStatus
  split
  · split <;> exact ⟨rfl, rfl⟩
  · exact ⟨rfl, rfl⟩

/-- The run after a step of its task. -/
def advance (registered : Bool) (a : Action) (r : Run) : Run :=
  { r with queue := r.queue ++ pushed registered a, task := reached registered a }

theorem finish_eq (r : Run) (registered : Bool) (events : List Event) (outcome : Event) :
    r.finish registered events outcome = { r with
      queue := r.queue ++ (events.map some ++
        if registered then ending outcome else [some .done, none])
      task := .ended } := by
  unfold Run.finish
  rw [List.append_assoc]

/-- A task takes a step wherever it stands before it. -/
theorem step_task (ha : taskOf a = some runId) : s.step a = some t ↔
    ∃ r, s.runs.get? runId = some r ∧ r.task = needs a ∧
      t = { record s runId (written (s.registered runId) a) with
        runs := s.runs.set runId (advance (s.registered runId) a r) } := by
  have hat : ∀ status (f : Run → Option Run) (r' : Run → Run),
      (∀ r, f r = if r.task = needs a then some (r' r) else none) →
      ((record s runId status).atRun runId f = some t ↔
        ∃ r, s.runs.get? runId = some r ∧ r.task = needs a ∧
          t = { record s runId status with runs := s.runs.set runId (r' r) }) := by
    intro status f r' hf
    rw [atRun_eq_some_iff, (record_runs s runId status).1]
    constructor
    · rintro ⟨r, r₁, hr, hr₁, rfl⟩
      rw [hf] at hr₁
      split at hr₁
      · rename_i htask
        cases hr₁
        exact ⟨r, hr, htask, rfl⟩
      · cases hr₁
    · rintro ⟨r, hr, htask, rfl⟩
      exact ⟨r, r' r, hr, by rw [hf, if_pos htask], rfl⟩
  cases a with
  | start id failure =>
    cases ha
    cases hregistered : s.registered runId with
    | true =>
      simp only [Server.step, Server.start, hregistered, finish_eq]
      cases failure with
      | none => exact hat (some .running) _ _ fun r => rfl
      | some message => exact hat (some .error) _ _ fun r => rfl
    | false =>
      simp only [Server.step, Server.start, hregistered, finish_eq]
      cases failure with
      | none => exact hat (some .error) _ _ fun r => rfl
      | some message => exact hat (some .error) _ _ fun r => rfl
  | poll id nodes =>
    cases ha
    refine hat none _ _ fun r => ?_
    obtain ⟨queue, task, clients⟩ := r
    cases task <;> rfl
  | finish id nodes outcome =>
    cases ha
    simp only [Server.step, Server.finish, finish_eq]
    exact hat (some (Server.statusOf outcome)) _ _ fun r => rfl
  | tick | post | connect | look | take | heartbeat | leave | cancel => cases ha

/-! ## The other steps -/

/-- The actions of a run, and the clock. -/
def own (runId : String) : Action → Bool
  | .tick => true
  | .post id | .start id _ | .poll id _ | .finish id _ _ => id = runId
  | _ => false

/-- A step of a client takes at most a message off the queue of its run. -/
def Kept (r r' : Run) : Prop := r'.task = r.task ∧ r'.queue.length ≤ r.queue.length

theorem kept_atClient {r r' : Run} {i : Nat} {f : Client → Option Client}
    (h : r.atClient i f = some r') : Kept r r' := by
  unfold Run.atClient at h
  simp only [Option.bind_eq_bind, Option.bind_eq_some_iff, Option.some.injEq] at h
  obtain ⟨c, -, c', -, rfl⟩ := h
  exact ⟨rfl, Nat.le_refl _⟩

theorem kept_take {r r' : Run} {i : Nat} (h : r.take i = some r') : Kept r r' := by
  unfold Run.take at h
  cases hqueue : r.queue with
  | nil =>
    rw [hqueue] at h
    cases h
  | cons m rest =>
    rw [hqueue] at h
    obtain ⟨htask, hlength⟩ := kept_atClient h
    refine ⟨htask, ?_⟩
    rw [hqueue]
    exact hlength.trans (Nat.le_succ _)

/-- What a step that is not one of the run leaves of it. -/
structure Foreign (runId : String) (s t : Server) : Prop where
  now : t.now = s.now
  none : s.runs.get? runId = none → t.runs.get? runId = none
  some : ∀ r, s.runs.get? runId = some r → ∃ r', t.runs.get? runId = some r' ∧ Kept r r'

theorem foreign_atRun {id : String} {f : Run → Option Run} {u : Server}
    (hf : ∀ r r', f r = some r' → id = runId → Kept r r') (hruns : u.runs = s.runs)
    (hnow : u.now = s.now) (h : u.atRun id f = some t) : Foreign runId s t := by
  obtain ⟨r, r', hr, hr', rfl⟩ := atRun_eq_some_iff.mp h
  rw [hruns] at hr ⊢
  refine ⟨hnow, fun hnone => ?_, fun x hx => ?_⟩
  · have hne : id ≠ runId := by
      rintro rfl
      rw [hr] at hnone
      cases hnone
    exact (Dict.get?_set_ne _ r' hne).trans hnone
  · by_cases hid : id = runId
    · subst hid
      rw [hr] at hx
      cases hx
      exact ⟨r', Dict.get?_set_self _ _ _, hf r r' hr' rfl⟩
    · exact ⟨x, (Dict.get?_set_ne _ r' hid).trans hx, rfl, Nat.le_refl _⟩

theorem foreign_step (ha : own runId a = false) (h : s.step a = some t) :
    Foreign runId s t := by
  have htask : ∀ id, taskOf a = some id → id ≠ runId → Foreign runId s t := by
    intro id hid hne
    obtain ⟨r, hr, -, rfl⟩ := (step_task hid).mp h
    refine ⟨(record_runs s id _).2, fun hnone => ?_, fun x hx => ⟨x, ?_, rfl, Nat.le_refl _⟩⟩
    · exact (Dict.get?_set_ne _ _ hne).trans hnone
    · exact (Dict.get?_set_ne _ _ hne).trans hx
  cases a with
  | tick => cases ha
  | post id =>
    have hne : id ≠ runId := by simpa [own] using ha
    simp only [Server.step, Server.post] at h
    split at h
    · cases h
    · cases h
      refine ⟨rfl, fun hnone => ?_, fun x hx => ⟨x, ?_, rfl, Nat.le_refl _⟩⟩
      · exact (Dict.get?_set_ne _ _ hne).trans hnone
      · exact (Dict.get?_set_ne _ _ hne).trans hx
  | start id failure => exact htask id rfl (by simpa [own] using ha)
  | poll id nodes => exact htask id rfl (by simpa [own] using ha)
  | finish id nodes outcome => exact htask id rfl (by simpa [own] using ha)
  | connect id =>
    simp only [Server.step, Server.connect] at h
    split at h
    · refine foreign_atRun (fun r r' hr _ => ?_) rfl rfl h
      cases hr
      exact ⟨rfl, Nat.le_refl _⟩
    · cases h
  | look id i => exact foreign_atRun (fun r r' hr _ => kept_atClient hr) rfl rfl h
  | take id i => exact foreign_atRun (fun r r' hr _ => kept_take hr) rfl rfl h
  | heartbeat id i => exact foreign_atRun (fun r r' hr _ => kept_atClient hr) rfl rfl h
  | leave id i => exact foreign_atRun (fun r r' hr _ => kept_atClient hr) rfl rfl h
  | cancel id i => exact foreign_atRun (fun r r' hr _ => kept_atClient hr) rfl rfl h

/-! ## The registry -/

theorem keys_record (s : Server) (id : String) (status : Option RunStatus) :
    (record s id status).registry.keys = s.registry.keys := by
  unfold record Server.setStatus
  split
  · split
    · rfl
    · rename_i m hm
      exact Dict.keys_set_of_mem ((Dict.mem_keys_iff _ _).mpr ⟨m, hm⟩) _
  · rfl

/-- Only a POST and a task change the registry. -/
theorem registry_step (ha : ∀ q, a ≠ .post q) (htask : taskOf a = none) (h : s.step a = some t) :
    t.registry = s.registry := by
  have hclient : ∀ id f, s.atRun id f = some t → t.registry = s.registry := by
    intro id f hf
    obtain ⟨r, r', -, -, rfl⟩ := atRun_eq_some_iff.mp hf
    rfl
  cases a with
  | tick =>
    cases h
    rfl
  | post id => exact absurd rfl (ha id)
  | start | poll | finish => cases htask
  | connect id =>
    simp only [Server.step, Server.connect] at h
    split at h
    · exact hclient id _ h
    · cases h
  | look id i => exact hclient id _ h
  | take id i => exact hclient id _ h
  | heartbeat id i => exact hclient id _ h
  | leave id i => exact hclient id _ h
  | cancel id i => exact hclient id _ h

/-- A step that is no POST leaves the keys of the registry as they are. -/
theorem keys_step (ha : ∀ q, a ≠ .post q) (h : s.step a = some t) :
    t.registry.keys = s.registry.keys := by
  cases htask : taskOf a with
  | none => rw [registry_step ha htask h]
  | some id =>
    obtain ⟨r, -, -, rfl⟩ := (step_task htask).mp h
    exact keys_record s id _

theorem post_eq_some_iff {id : String} : s.step (.post id) = some t ↔
    id ∉ s.runs.keys ∧ t = { s with
      registry := (evictStaleRuns s.now s.registry).set id ⟨.accepted, s.now⟩
      runs := s.runs.set id .new } := by
  simp only [Server.step, Server.post]
  split
  · rename_i hmem
    simp [hmem]
  · rename_i hmem
    simp [hmem, eq_comm]

/-! ## What a run puts on its stream -/

/-- What the step from `s` to `t` puts on the stream of the run. -/
def putsOf (runId : String) (s t : Server) : List (Option Event) :=
  match s.runs.get? runId, t.runs.get? runId with
  | some r, some r' => r'.queue.drop r.queue.length
  | _, _ => []

/-- What the run puts on its stream while these actions are taken. -/
def puts (runId : String) : Server → List Action → Option (List (Option Event))
  | _, [] => some []
  | s, a :: as => do
    let t ← s.step a
    let later ← puts runId t as
    some (putsOf runId s t ++ later)

/-- A task that has ended takes no step. -/
theorem not_task_of_ended {r : Run} (hr : s.runs.get? runId = some r) (hended : r.task = .ended)
    (ha : taskOf a = some runId) : s.step a = none := by
  rw [Option.eq_none_iff_forall_ne_some]
  intro t h
  obtain ⟨r', hr', htask, -⟩ := (step_task ha).mp h
  rw [hr] at hr'
  cases hr'
  rw [hended] at htask
  cases a <;> cases htask

theorem own_cases (ha : own runId a = true) :
    a = .tick ∨ a = .post runId ∨ taskOf a = some runId := by
  cases a <;> simp_all [own, taskOf]

/-- The run is there, and its task has not ended. -/
def Unfinished (runId : String) (s : Server) : Prop :=
  ∃ r, s.runs.get? runId = some r ∧ r.task ≠ .ended

def Ended (runId : String) (s : Server) : Prop :=
  ∃ r, s.runs.get? runId = some r ∧ r.task = .ended

/-- An unfinished run has its entry. -/
def Held (runId : String) (s : Server) : Prop :=
  Unfinished runId s → s.registered runId = true

/-- Only its own POST and its own task change where a run stands. -/
theorem task_step (h : s.step a = some t) (hpost : a ≠ .post runId)
    (htask : taskOf a ≠ some runId) :
    (Unfinished runId t ↔ Unfinished runId s) ∧ (Ended runId t ↔ Ended runId s) := by
  have hiff : ∀ P : TaskPhase → Prop,
      ((∃ r, t.runs.get? runId = some r ∧ P r.task) ↔
        ∃ r, s.runs.get? runId = some r ∧ P r.task) := by
    intro P
    by_cases ha : own runId a = true
    · rcases own_cases ha with rfl | rfl | hown
      · cases h
        rfl
      · exact absurd rfl hpost
      · exact absurd hown htask
    · have hforeign := foreign_step (by simpa using ha) h
      constructor
      · rintro ⟨r', hr', hP⟩
        cases hr : s.runs.get? runId with
        | none =>
          rw [hforeign.none hr] at hr'
          cases hr'
        | some r =>
          obtain ⟨r₁, hr₁, hsame, -⟩ := hforeign.some r hr
          rw [hr₁] at hr'
          cases hr'
          exact ⟨r, rfl, hsame ▸ hP⟩
      · rintro ⟨r, hr, hP⟩
        obtain ⟨r', hr', hsame, -⟩ := hforeign.some r hr
        exact ⟨r', hr', hsame ▸ hP⟩
  exact ⟨hiff (· ≠ .ended), hiff (· = .ended)⟩

/-- A run that has ended stays so. -/
theorem ended_step (hended : Ended runId s) (h : s.step a = some t) : Ended runId t := by
  obtain ⟨r, hr, htask⟩ := hended
  have hpost : a ≠ .post runId := by
    rintro rfl
    exact (post_eq_some_iff.mp h).1 ((Dict.mem_keys_iff _ _).mpr ⟨r, hr⟩)
  have hown : taskOf a ≠ some runId := by
    intro hown
    rw [not_task_of_ended hr htask hown] at h
    cases h
  exact (task_step h hpost hown).2.mpr ⟨r, hr, htask⟩

/-- A run that ends more than an hour after its POST and those of `ids`, when another run has just
been posted. -/
def overtaken (runId : String) (ids : List String) (late : String) : List Action :=
  ((runId :: ids).map .post ++ [.start runId none] ++ List.replicate 3601 .tick) ++
    [.post late, .finish runId [] (.ok "approved")]

end orchestra.tprm.run_registry
