-- A machine that takes labelled steps: its runs, what every step keeps every
-- run keeps, and runs whose steps all meet a condition.
import Mathlib.Data.List.Basic

namespace machine

variable {σ α : Type}

/-! ## Machines and their runs -/

structure Machine (σ α : Type) where
  init : σ → Prop
  step : σ → α → σ → Prop

/-- A run from `s` to `t`, with the labels of its steps. -/
inductive Run (M : Machine σ α) : σ → List α → σ → Prop
  | stay (s : σ) : Run M s [] s
  | step {s t u : σ} {a : α} {as : List α} (first : M.step s a t) (rest : Run M t as u) :
    Run M s (a :: as) u

/-- The states of all runs from the start. -/
def Reachable (M : Machine σ α) (t : σ) : Prop := ∃ s as, M.init s ∧ Run M s as t

/-- The steps of `M` at which `allowed` holds of the state before the step. -/
def Machine.restrict (M : Machine σ α) (allowed : σ → α → Prop) : Machine σ α where
  init := M.init
  step s a t := M.step s a t ∧ allowed s a

/-- The condition that every step meets. -/
def everyStep (_ : σ) (_ : α) : Prop := True

variable {M : Machine σ α}

/-! ## Runs compose -/

theorem Run.append {s t u : σ} {as bs : List α} (h1 : Run M s as t) (h2 : Run M t bs u) :
    Run M s (as ++ bs) u := by
  induction h1 with
  | stay s => exact h2
  | step first _ ih => exact .step first (ih h2)

theorem Run.snoc {s t u : σ} {as : List α} {a : α} (h : Run M s as t) (ha : M.step t a u) :
    Run M s (as ++ [a]) u :=
  h.append (.step ha (.stay u))

/-- A fold of a function that computes steps is a run. -/
theorem run_of_foldlM {f : σ → α → Option σ} (hf : ∀ s a t, f s a = some t → M.step s a t)
    {s t : σ} {as : List α} (h : as.foldlM f s = some t) : Run M s as t := by
  induction as generalizing s with
  | nil =>
    cases h
    exact .stay _
  | cons a rest ih =>
    rw [List.foldlM_cons] at h
    rcases hstep : f s a with _ | u
    · rw [hstep] at h
      cases h
    · rw [hstep] at h
      exact .step (hf s a u hstep) (ih h)

/-- Each label of a run is that of a step that the run takes. -/
theorem Run.exists_step {s t : σ} {as : List α} {a : α} (h : Run M s as t) (ha : a ∈ as) :
    ∃ bs u v, Run M s bs u ∧ M.step u a v := by
  induction h with
  | stay s => cases ha
  | step first _ ih =>
    rcases List.mem_cons.mp ha with rfl | ha
    · exact ⟨[], _, _, .stay _, first⟩
    · obtain ⟨bs, u, v, hrun, hstep⟩ := ih ha
      exact ⟨_, u, v, .step first hrun, hstep⟩

/-! ## Invariants -/

/-- What holds at the start and is kept by every step holds at the end. -/
theorem Run.invariant {I : σ → Prop} (hstep : ∀ s a t, I s → M.step s a t → I t) {s t : σ}
    {as : List α} (h : Run M s as t) (hs : I s) : I t := by
  induction h with
  | stay s => exact hs
  | step first _ ih => exact ih (hstep _ _ _ hs first)

/-- What every step keeps between the state and a history folded from the labels,
every run keeps. -/
theorem Run.history {β : Type} {I : σ → β → Prop} {f : β → α → β}
    (hstep : ∀ s a t b, I s b → M.step s a t → I t (f b a)) {s t : σ} {as : List α}
    (h : Run M s as t) {b : β} (hs : I s b) : I t (as.foldl f b) := by
  induction h generalizing b with
  | stay s => exact hs
  | step first _ ih => exact ih (hstep _ _ _ _ hs first)

theorem Reachable.invariant {I : σ → Prop} (hinit : ∀ s, M.init s → I s)
    (hstep : ∀ s a t, I s → M.step s a t → I t) {t : σ} (h : Reachable M t) : I t := by
  obtain ⟨s, as, hs, hrun⟩ := h
  exact hrun.invariant hstep (hinit s hs)

theorem reachable_init {s : σ} (h : M.init s) : Reachable M s := ⟨s, [], h, .stay s⟩

theorem Reachable.step {s t : σ} {a : α} (h : Reachable M s) (ha : M.step s a t) :
    Reachable M t := by
  obtain ⟨r, as, hr, hrun⟩ := h
  exact ⟨r, as ++ [a], hr, hrun.snoc ha⟩

/-- A run of a machine whose steps are all steps of another. -/
theorem Run.mono {N : Machine σ α} (h : ∀ s a t, M.step s a t → N.step s a t) {s t : σ}
    {as : List α} (hrun : Run M s as t) : Run N s as t := by
  induction hrun with
  | stay s => exact .stay s
  | step first _ ih => exact .step (h _ _ _ first) ih

/-- A run under a condition is a run. -/
theorem Run.of_restrict {allowed : σ → α → Prop} {s t : σ} {as : List α}
    (h : Run (M.restrict allowed) s as t) : Run M s as t := by
  have hstep : ∀ u a v, (M.restrict allowed).step u a v → M.step u a v := fun u a v hs => hs.1
  exact h.mono hstep

theorem Reachable.of_restrict {allowed : σ → α → Prop} {t : σ}
    (h : Reachable (M.restrict allowed) t) : Reachable M t := by
  obtain ⟨s, as, hs, hrun⟩ := h
  exact ⟨s, as, hs, hrun.of_restrict⟩

/-- In a deterministic machine the condition can be checked step by step. -/
theorem Run.restrict_cons {allowed : σ → α → Prop}
    (hdet : ∀ s a t u, M.step s a t → M.step s a u → t = u) {s t u : σ} {a : α} {as : List α}
    (first : M.step s a t) : Run (M.restrict allowed) s (a :: as) u ↔
      allowed s a ∧ Run (M.restrict allowed) t as u := by
  constructor
  · intro h
    cases h with
    | step firstAllowed rest =>
      obtain rfl := hdet _ _ _ _ first firstAllowed.1
      exact ⟨firstAllowed.2, rest⟩
  · rintro ⟨hallowed, rest⟩
    exact .step ⟨first, hallowed⟩ rest

/-- Every state on the way satisfies `I`. -/
def Throughout (M : Machine σ α) (I : σ → Prop) (s : σ) (as : List α) : Prop :=
  ∀ bs cs t, as = bs ++ cs → Run M s bs t → I t

theorem throughout_cons {I : σ → Prop} (hdet : ∀ s a t u, M.step s a t → M.step s a u → t = u)
    {s t : σ} {a : α} {as : List α} (hs : I s) (ha : M.step s a t) :
    Throughout M I s (a :: as) ↔ Throughout M I t as := by
  constructor
  · intro h bs cs u heq hrun
    exact h (a :: bs) cs u (by rw [heq, List.cons_append]) (.step ha hrun)
  · intro h bs cs u heq hrun
    cases hrun with
    | stay => exact hs
    | step first rest =>
      rw [List.cons_append, List.cons.injEq] at heq
      obtain ⟨rfl, heq⟩ := heq
      rw [hdet _ _ _ _ first ha] at rest
      exact h _ cs u heq rest

/-- When a step keeps `I` exactly where it is allowed, the runs on which `I` holds
throughout are the ones that take allowed steps only. -/
theorem Run.throughout_iff {I : σ → Prop} {allowed : σ → α → Prop}
    (hdet : ∀ s a t u, M.step s a t → M.step s a u → t = u)
    (hstep : ∀ s a t, I s → M.step s a t → (I t ↔ allowed s a)) {s t : σ} {as : List α}
    (h : Run M s as t) (hs : I s) :
    Throughout M I s as ↔ Run (M.restrict allowed) s as t := by
  induction h with
  | stay s =>
    refine ⟨fun _ => .stay s, fun _ bs cs u heq hrun => ?_⟩
    obtain ⟨rfl, -⟩ := List.append_eq_nil_iff.mp heq.symm
    cases hrun
    exact hs
  | @step s t u a as first rest ih =>
    rw [throughout_cons hdet hs first]
    constructor
    · intro hall
      have ht : I t := hall [] as t rfl (.stay t)
      exact .step ⟨first, (hstep s a t hs first).mp ht⟩ ((ih ht).mp hall)
    · intro hrun
      obtain ⟨hallowed, hrest⟩ := (Run.restrict_cons hdet first).mp hrun
      exact (ih ((hstep s a t hs first).mpr hallowed)).mpr hrest

/-- What no step can bring back held all the way. -/
theorem Run.back {I : σ → Prop} (hback : ∀ s a t, M.step s a t → I t → I s) {s t : σ}
    {as : List α} (h : Run M s as t) (ht : I t) : I s := by
  induction h with
  | stay s => exact ht
  | step first _ ih => exact hback _ _ _ first (ih ht)

/-- A property that once lost stays lost holds at the end of the runs that take allowed steps
only, when a step keeps it exactly where it is allowed. -/
theorem Run.kept_iff {I : σ → Prop} {allowed : σ → α → Prop}
    (hdet : ∀ s a t u, M.step s a t → M.step s a u → t = u)
    (hback : ∀ s a t, M.step s a t → I t → I s)
    (hstep : ∀ s a t, I s → M.step s a t → (I t ↔ allowed s a)) {s t : σ} {as : List α}
    (h : Run M s as t) (hs : I s) : I t ↔ Run (M.restrict allowed) s as t := by
  rw [← h.throughout_iff hdet hstep hs]
  induction h with
  | stay s =>
    refine ⟨fun _ bs cs u heq hrun => ?_, fun _ => hs⟩
    obtain ⟨rfl, -⟩ := List.append_eq_nil_iff.mp heq.symm
    cases hrun
    exact hs
  | @step s t u a as first rest ih =>
    rw [throughout_cons hdet hs first]
    constructor
    · intro hu
      exact (ih (rest.back hback hu)).mp hu
    · intro hall
      exact (ih (hall [] as t rfl (.stay t))).mpr hall

end machine
