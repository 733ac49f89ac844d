-- Computations on a state that may fail, and then leave a state all the same (`EStateM`):
-- where such a computation leads from a given state.

namespace stateful

variable {ε σ τ α β : Type}

/-- From the state `s` the computation comes to a value and a state that meet `Q`, or fails
with an error and in a state that meet `E`. -/
def Leads (x : EStateM ε σ α) (Q : α → σ → Prop) (E : ε → σ → Prop) (s : σ) : Prop :=
  match x s with
  | .ok a t => Q a t
  | .error e t => E e t

variable {x : EStateM ε σ α} {f : α → EStateM ε σ β} {Q Q' : α → σ → Prop} {E E' : ε → σ → Prop}
  {s : σ}

@[simp] theorem leads_pure (a : α) : Leads (pure a : EStateM ε σ α) Q E s ↔ Q a s := Iff.rfl

@[simp] theorem leads_bind {Q : β → σ → Prop} :
    Leads (x >>= f) Q E s ↔ Leads x (fun a t => Leads (f a) Q E t) E s := by
  unfold Leads
  change (match EStateM.bind x f s with | .ok a t => _ | .error e t => _) ↔ _
  unfold EStateM.bind
  cases x s <;> rfl

@[simp] theorem leads_get {Q : σ → σ → Prop} :
    Leads (get : EStateM ε σ σ) Q E s ↔ Q s s := Iff.rfl

@[simp] theorem leads_set {Q : PUnit → σ → Prop} (t : σ) :
    Leads (set t : EStateM ε σ PUnit) Q E s ↔ Q ⟨⟩ t := Iff.rfl

@[simp] theorem leads_throw (e : ε) : Leads (throw e : EStateM ε σ α) Q E s ↔ E e s := Iff.rfl

theorem Leads.mono (h : Leads x Q E s) (hQ : ∀ a t, Q a t → Q' a t)
    (hE : ∀ e t, E e t → E' e t) : Leads x Q' E' s := by
  unfold Leads at *
  cases hx : x s with
  | ok a t =>
    rw [hx] at h
    exact hQ a t h
  | error e t =>
    rw [hx] at h
    exact hE e t h

/-- A computation on a part of the state. -/
def zoom (view : σ → τ) (put : τ → σ → σ) (x : EStateM ε τ α) : EStateM ε σ α := fun s =>
  match x (view s) with
  | .ok a t => .ok a (put t s)
  | .error e t => .error e (put t s)

/-- The state after a computation, whether it fails or not. -/
def final (x : EStateM ε σ α) (s : σ) : σ :=
  match x s with
  | .ok _ t => t
  | .error _ t => t

theorem final_of_leads {P : σ → Prop} (h : Leads x (fun _ t => P t) (fun _ t => P t) s) :
    P (final x s) := by
  unfold Leads at h
  unfold final
  cases hx : x s with
  | ok a t =>
    rw [hx] at h
    exact h
  | error e t =>
    rw [hx] at h
    exact h

/-! ## Two computations -/

/-- From `s` and `t` two computations come to values and states that meet `R`, or both of them fail,
in states that meet `E`. -/
def LeadBoth (x : EStateM ε σ α) (y : EStateM ε σ β) (R : α → β → σ → σ → Prop)
    (E : σ → σ → Prop) (s t : σ) : Prop :=
  match x s, y t with
  | .ok a s', .ok b t' => R a b s' t'
  | .error _ s', .error _ t' => E s' t'
  | _, _ => False

section both

variable {γ δ : Type} {y : EStateM ε σ γ} {g : γ → EStateM ε σ δ} {F F' : σ → σ → Prop} {t : σ}

theorem LeadBoth.bind {R : β → δ → σ → σ → Prop}
    (h : LeadBoth x y (fun a b s' t' => LeadBoth (f a) (g b) R F s' t') F s t) :
    LeadBoth (x >>= f) (y >>= g) R F s t := by
  unfold LeadBoth at *
  change match EStateM.bind x f s, EStateM.bind y g t with
    | .ok a s', .ok b t' => _ | .error _ s', .error _ t' => _ | _, _ => _
  unfold EStateM.bind
  cases hx : x s with
  | ok a s' =>
    cases hy : y t with
    | ok b t' =>
      rw [hx, hy] at h
      exact h
    | error e t' =>
      rw [hx, hy] at h
      exact h.elim
  | error e s' =>
    cases hy : y t with
    | ok b t' =>
      rw [hx, hy] at h
      exact h.elim
    | error e t' =>
      rw [hx, hy] at h
      exact h

@[simp] theorem leadBoth_get {R : σ → σ → σ → σ → Prop} :
    LeadBoth (get : EStateM ε σ σ) get R F s t ↔ R s t s t := Iff.rfl

theorem LeadBoth.mono {R R' : α → γ → σ → σ → Prop} (h : LeadBoth x y R F s t)
    (hR : ∀ a b s' t', R a b s' t' → R' a b s' t') (hF : ∀ s' t', F s' t' → F' s' t') :
    LeadBoth x y R' F' s t := by
  unfold LeadBoth at *
  cases hx : x s with
  | ok a s' =>
    cases hy : y t with
    | ok b t' =>
      rw [hx, hy] at h
      exact hR a b s' t' h
    | error e t' =>
      rw [hx, hy] at h
      exact h.elim
  | error e s' =>
    cases hy : y t with
    | ok b t' =>
      rw [hx, hy] at h
      exact h.elim
    | error e t' =>
      rw [hx, hy] at h
      exact hF s' t' h

/-- The states in which both end. -/
theorem final_both {P : σ → σ → Prop} (h : LeadBoth x y (fun _ _ s' t' => P s' t') P s t) :
    P (final x s) (final y t) := by
  unfold LeadBoth at h
  unfold final
  cases hx : x s with
  | ok a s' =>
    cases hy : y t with
    | ok b t' =>
      rw [hx, hy] at h
      exact h
    | error e t' =>
      rw [hx, hy] at h
      exact h.elim
  | error e s' =>
    cases hy : y t with
    | ok b t' =>
      rw [hx, hy] at h
      exact h.elim
    | error e t' =>
      rw [hx, hy] at h
      exact h

end both

end stateful
