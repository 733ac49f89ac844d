-- A program behind a filter, which sees each of its questions on the way out and each answer on
-- the way back, and may change both. What the program sees of a run, and what is seen of it.
import Orchestra.Lib.Program

open programs

namespace filters

open Program

variable {Q Q' : Type} {A : Q → Type} {A' : Q' → Type} {ε α β σ : Type}

/-- What a filter makes of a question, which may be one of another kind, and of its answer. It may
remember something. -/
structure Filter (σ : Type) (A : Q → Type) (A' : Q' → Type) where
  ask : σ → Q → Q'
  back : (s : σ) → (q : Q) → A' (ask s q) → A q
  next : (s : σ) → (q : Q) → A' (ask s q) → σ

/-- The program behind the filter, and then what is done about its end. -/
def through (F : Filter σ A A') (finish : σ → Except ε α → Program Q' A' ε β) :
    σ → Program Q A ε α → Program Q' A' ε β
  | s, .done r => finish s r
  | s, .ask q next =>
    .ask (F.ask s q) (fun a => through F finish (F.next s q a) (next (F.back s q a)))

/-- The trace `u` of a program is seen as `t` in front of the filter. -/
inductive Seen (F : Filter σ A A') : σ → List (Answered Q A) → List (Answered Q' A') → σ → Prop
  | nil (s : σ) : Seen F s [] [] s
  | cons {s s' : σ} {q : Q} {u : List (Answered Q A)} {t : List (Answered Q' A')} (a : A' (F.ask s q))
    (rest : Seen F (F.next s q a) u t s') :
    Seen F s (⟨q, F.back s q a⟩ :: u) (⟨F.ask s q, a⟩ :: t) s'

variable {F : Filter σ A A'} {finish : σ → Except ε α → Program Q' A' ε β} {s s' : σ}
  {t : List (Answered Q' A')} {r : Except ε β}

/-- A run in front of the filter is a run of the program, as it is seen, and what follows it. -/
theorem path_through_iff {p : Program Q A ε α} :
    Path (through F finish s p) t (.done r) ↔
      ∃ u t' tail s' r', t = t' ++ tail ∧ Seen F s u t' s' ∧ Path p u (.done r') ∧
        Path (finish s' r') tail (.done r) := by
  constructor
  · intro h
    induction p generalizing s t with
    | done r' => exact ⟨[], [], t, s, r', rfl, .nil s, .stay _, h⟩
    | ask q next ih =>
      cases h with
      | answer a rest =>
        obtain ⟨u, t', tail, s', r', rfl, hseen, hpath, htail⟩ := ih (F.back s q a) rest
        exact ⟨_, _, tail, s', r', rfl, .cons a hseen, .answer _ hpath, htail⟩
  · rintro ⟨u, t', tail, s', r', rfl, hseen, hpath, htail⟩
    induction hseen generalizing p with
    | nil s =>
      cases hpath
      exact htail
    | cons a rest ih =>
      cases hpath with
      | answer b hrest => exact .answer a (ih hrest htail)

end filters
