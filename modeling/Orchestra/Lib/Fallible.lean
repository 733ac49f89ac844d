-- Computations that may fail: when one ends well, and what holds of whatever it ends with.

namespace fallible

variable {ε α β : Type}

/-! ## Computations that end well -/

def Ends (x : Except ε α) : Prop := ∃ a, x = .ok a

@[simp] theorem ends_ok (a : α) : Ends (.ok a : Except ε α) := ⟨a, rfl⟩

@[simp] theorem ends_error (e : ε) : ¬ Ends (.error e : Except ε α) := by
  rintro ⟨a, ⟨⟩⟩

theorem exists_error_iff (x : Except ε α) : (∃ e, x = .error e) ↔ ¬ ∃ a, x = .ok a := by
  cases x <;> simp

theorem ends_map (x : Except ε α) (f : α → β) : Ends (x.map f) ↔ Ends x := by
  cases x <;> simp [Except.map]

theorem ends_bind (x : Except ε α) (f : α → Except ε β) :
    Ends (x >>= f) ↔ ∃ a, x = .ok a ∧ Ends (f a) := by
  cases x <;> simp [bind, Except.bind]

theorem bind_eq_ok_iff (x : Except ε α) (f : α → Except ε β) (b : β) :
    x >>= f = .ok b ↔ ∃ a, x = .ok a ∧ f a = .ok b := by
  cases x <;> simp [bind, Except.bind]

/-- A computation, and then one that always ends well. -/
theorem ends_then {x : Except ε α} {f : α → Except ε β} (h : ∀ a, Ends (f a)) :
    Ends (x >>= f) ↔ Ends x := by
  rw [ends_bind]
  exact exists_congr fun a => and_iff_left (h a)

/-- A computation, and then one that does not use its result. -/
theorem ends_seq (x : Except ε α) (y : Except ε β) :
    Ends (x >>= fun _ => y) ↔ Ends x ∧ Ends y := by
  rw [ends_bind]
  exact exists_and_right

theorem ends_ite {p : Prop} [Decidable p] (x y : Except ε α) :
    Ends (if p then x else y) ↔ (p → Ends x) ∧ (¬ p → Ends y) := by
  split <;> simp [*]

/-! ## What they end with -/

/-- Whatever the computation ends with has the property. -/
def Yields (P : α → Prop) (x : Except ε α) : Prop := ∀ a, x = .ok a → P a

theorem yields_ok {P : α → Prop} {a : α} (h : P a) : Yields P (.ok a : Except ε α) := by
  rintro b ⟨⟩
  exact h

theorem yields_bind {P : β → Prop} {x : Except ε α} {f : α → Except ε β}
    (h : ∀ a, Yields P (f a)) : Yields P (x >>= f) := by
  rcases x with e | a
  · rintro b ⟨⟩
  · exact h a

theorem yields_map {P : β → Prop} {x : Except ε α} {f : α → β}
    (h : Yields (fun a => P (f a)) x) : Yields P (x.map f) := by
  rcases x with e | a
  · rintro b ⟨⟩
  · exact yields_ok (h a rfl)

end fallible
