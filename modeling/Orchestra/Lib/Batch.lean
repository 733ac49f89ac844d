-- Work on a list of items that is all or nothing: one item that fails, or the step that closes
-- the batch, leaves nothing of the rest. What that means for the items beside it.
import Mathlib.Data.List.Basic
import Mathlib.Data.List.Forall2

namespace batches

variable {α β γ δ ε : Type}

/-! ## Items that may fail -/

theorem mapM_ok_iff {f : α → Except ε β} {xs : List α} {ys : List β} :
    xs.mapM f = .ok ys ↔ xs.map f = ys.map .ok := by
  induction xs generalizing ys with
  | nil => cases ys <;> simp [pure, Except.pure]
  | cons x rest ih =>
    rw [List.mapM_cons]
    rcases hx : f x with e | y
    · cases ys <;> simp [bind, Except.bind, hx]
    · rcases hrest : rest.mapM f with e | later
      · have hnone : ∀ zs : List β, rest.map f ≠ zs.map .ok := by
          intro zs hzs
          rw [ih.mpr hzs] at hrest
          cases hrest
        cases ys <;> simp [bind, Except.bind, hx, hnone]
      · have hlater := ih.mp hrest
        cases ys with
        | nil => simp [bind, Except.bind, pure, Except.pure]
        | cons z zs =>
          have hsame : later.map Except.ok = zs.map (Except.ok (ε := ε)) ↔ later = zs :=
            List.map_inj_right (fun _ _ h => Except.ok.inj h)
          simp [bind, Except.bind, pure, Except.pure, hx, hlater, hsame]

theorem mapM_error_iff {f : α → Except ε β} {xs : List α} :
    (∃ e, xs.mapM f = .error e) ↔ ∃ x ∈ xs, ∃ e, f x = .error e := by
  induction xs with
  | nil => simp [pure, Except.pure]
  | cons x rest ih =>
    rw [List.mapM_cons]
    rcases hx : f x with e | y
    · simp [bind, Except.bind, hx]
    · rw [List.exists_mem_cons_iff, ← ih]
      rcases hrest : rest.mapM f with e | later <;> simp [bind, Except.bind, pure, Except.pure, hx]

theorem mapM_some_iff {f : α → Option β} {xs : List α} {ys : List β} :
    xs.mapM f = some ys ↔ List.Forall₂ (fun x y => f x = some y) xs ys := by
  induction xs generalizing ys with
  | nil => simp [eq_comm]
  | cons x rest ih =>
    simp only [List.mapM_cons, Option.bind_eq_bind, Option.bind_eq_some_iff,
      List.forall₂_cons_left_iff]
    constructor
    · rintro ⟨y, hy, later, hlater, h⟩
      exact ⟨y, later, hy, ih.mp hlater, (Option.some.inj h).symm⟩
    · rintro ⟨y, later, hy, hlater, rfl⟩
      exact ⟨y, hy, later, ih.mpr hlater, rfl⟩

/-! ## Batches -/

/-- The findings of every item, and then what closes the batch. -/
def outcome (f : α → Except ε (List γ)) (close : List (List γ) → Except ε δ) (xs : List α) :
    Except ε (List (List γ) × δ) := do
  let each ← xs.mapM f
  let last ← close each
  .ok (each, last)

/-- The batch comes to nothing. -/
def Breaks (f : α → Except ε (List γ)) (close : List (List γ) → Except ε δ) (xs : List α) : Prop :=
  ∃ e, outcome f close xs = .error e

/-- What is left of every item. -/
def kept (f : α → Except ε (List γ)) (close : List (List γ) → Except ε δ) (xs : List α) :
    List (List γ) :=
  match outcome f close xs with
  | .ok (each, _) => each
  | .error _ => xs.map (fun _ => [])

variable {f : α → Except ε (List γ)} {close : List (List γ) → Except ε δ} {xs : List α}

theorem breaks_iff : Breaks f close xs ↔ (∃ x ∈ xs, ∃ e, f x = .error e) ∨
    ∃ each, xs.mapM f = .ok each ∧ ∃ e, close each = .error e := by
  unfold Breaks outcome
  rw [← mapM_error_iff]
  rcases xs.mapM f with e | each
  · simp [bind, Except.bind]
  · rcases hclose : close each with e | last <;> simp [bind, Except.bind, hclose]

theorem kept_of_breaks (h : Breaks f close xs) : kept f close xs = xs.map (fun _ => []) := by
  obtain ⟨e, he⟩ := h
  unfold kept
  rw [he]

theorem kept_of_not_breaks (h : ¬ Breaks f close xs) : xs.map f = (kept f close xs).map .ok := by
  unfold kept
  rcases hout : outcome f close xs with e | ⟨each, last⟩
  · exact absurd ⟨e, hout⟩ h
  · unfold outcome at hout
    rcases hx : xs.mapM f with e | each'
    · simp [bind, Except.bind, hx] at hout
    · rcases hclose : close each' with e | last'
      · simp [bind, Except.bind, hx, hclose] at hout
      · simp only [bind, Except.bind, hx, hclose, Except.ok.injEq, Prod.mk.injEq] at hout
        rw [← hout.1]
        exact mapM_ok_iff.mp hx

/-- An item without findings is one that nothing is left of, in any batch. -/
theorem kept_of_silent (h : ∀ x ∈ xs, f x = .ok []) :
    kept f close xs = xs.map (fun _ => []) := by
  by_cases hbreaks : Breaks f close xs
  · exact kept_of_breaks hbreaks
  · have hkept := kept_of_not_breaks hbreaks
    have hsilent : xs.map f = (xs.map (fun _ => ([] : List γ))).map .ok := by
      rw [List.map_map]
      exact List.map_congr_left h
    apply (List.map_inj_right (f := Except.ok (ε := ε)) (fun _ _ h => Except.ok.inj h)).mp
    rw [← hkept, hsilent]

theorem silent_of_kept (hbreaks : ¬ Breaks f close xs)
    (h : kept f close xs = xs.map (fun _ => [])) : ∀ x ∈ xs, f x = .ok [] := by
  have hkept := kept_of_not_breaks hbreaks
  rw [h, List.map_map] at hkept
  exact List.map_inj_left.mp hkept

theorem eraseIdx_map (g : α → β) (xs : List α) (i : Nat) :
    (xs.map g).eraseIdx i = (xs.eraseIdx i).map g := by
  induction xs generalizing i with
  | nil => rfl
  | cons x rest ih =>
    cases i with
    | zero => rfl
    | succ i => simp [ih]

/-- A batch without one of its items leaves of the others what the whole batch leaves of them,
if both batches or none break, or if the others have no findings. -/
theorem kept_eraseIdx_iff (i : Nat) :
    (kept f close xs).eraseIdx i = kept f close (xs.eraseIdx i) ↔
      (Breaks f close xs ↔ Breaks f close (xs.eraseIdx i)) ∨
        ∀ x ∈ xs.eraseIdx i, f x = .ok [] := by
  have hnothing : (xs.map (fun _ => ([] : List γ))).eraseIdx i =
      (xs.eraseIdx i).map (fun _ => []) := eraseIdx_map ..
  have hfindings : ¬ Breaks f close xs →
      ((kept f close xs).eraseIdx i).map Except.ok = (xs.eraseIdx i).map f := by
    intro hwhole
    rw [← eraseIdx_map, ← kept_of_not_breaks hwhole, eraseIdx_map]
  have hinj : ∀ ys zs : List (List γ), ys.map Except.ok = zs.map (Except.ok (ε := ε)) → ys = zs :=
    fun _ _ => (List.map_inj_right (fun _ _ h => Except.ok.inj h)).mp
  by_cases hwhole : Breaks f close xs <;> by_cases hless : Breaks f close (xs.eraseIdx i)
  · rw [kept_of_breaks hwhole, kept_of_breaks hless, hnothing]
    simp [hwhole, hless]
  · rw [kept_of_breaks hwhole, hnothing]
    simp only [hwhole, hless, true_iff, false_or]
    exact ⟨fun h => silent_of_kept hless h.symm, fun h => (kept_of_silent h).symm⟩
  · rw [kept_of_breaks hless]
    simp only [hwhole, hless, false_iff, not_true_eq_false, false_or]
    constructor
    · intro h
      have hall := hfindings hwhole
      rw [h, List.map_map] at hall
      exact fun x hx => (List.map_inj_left.mp hall x hx).symm
    · intro h
      apply hinj
      rw [hfindings hwhole, List.map_map]
      exact List.map_congr_left h
  · simp only [hwhole, hless, true_or, iff_true]
    apply hinj
    rw [hfindings hwhole, kept_of_not_breaks hless]

end batches
