-- Loops whose body is a program: each turn asks what it asks, and goes on with a new state or
-- leaves the loop with a result.
import Orchestra.Lib.Program

open programs

namespace loops

open Program

variable {Q : Type} {A : Q → Type} {ε α σ : Type}

/-! ## Answers to a program -/

/-- The answers of a trace are those that `reply` gives in the light of what was asked before. -/
def Replies (reply : List (Answered Q A) → (q : Q) → A q) :
    List (Answered Q A) → List (Answered Q A) → Prop
  | _, [] => True
  | past, e :: trace => e.2 = reply past e.1 ∧ Replies reply (past ++ [e]) trace

theorem replies_append {reply : List (Answered Q A) → (q : Q) → A q}
    {past t u : List (Answered Q A)} (ht : Replies reply past t)
    (hu : Replies reply (past ++ t) u) : Replies reply past (t ++ u) := by
  induction t generalizing past with
  | nil => simpa using hu
  | cons e t ih =>
    refine ⟨ht.1, ih ht.2 ?_⟩
    simpa using hu

/-- A program comes to an end, whatever it is answered. -/
theorem exists_end (reply : List (Answered Q A) → (q : Q) → A q) (p : Program Q A ε α)
    (past : List (Answered Q A)) :
    ∃ trace r, Path p trace (.done r) ∧ Replies reply past trace := by
  induction p generalizing past with
  | done r => exact ⟨[], r, .stay _, trivial⟩
  | ask q next ih =>
    obtain ⟨trace, r, hpath, hreplies⟩ := ih (reply past q) (past ++ [⟨q, reply past q⟩])
    exact ⟨_ :: trace, r, .answer _ hpath, rfl, hreplies⟩

/-! ## Loops -/

variable (body : σ → Program Q A ε (σ ⊕ α))

/-- The loop comes from `s` to its end `r`, when it is given these answers. -/
inductive Loop : σ → List (Answered Q A) → Except ε α → Prop
  | ends {s : σ} {t : List (Answered Q A)} {a : α} (h : Path (body s) t (.done (.ok (.inr a)))) :
    Loop s t (.ok a)
  | fails {s : σ} {t : List (Answered Q A)} {e : ε} (h : Path (body s) t (.done (.error e))) :
    Loop s t (.error e)
  | turns {s s' : σ} {t u : List (Answered Q A)} {r : Except ε α}
    (h : Path (body s) t (.done (.ok (.inl s')))) (rest : Loop s' u r) : Loop s (t ++ u) r

/-- One turn may lead from `s` to `s'`. -/
def Turn (s s' : σ) : Prop := ∃ trace, Path (body s) trace (.done (.ok (.inl s')))

/-- No run of turns goes on for ever. -/
def Terminates (s : σ) : Prop := Acc (fun s' s => Turn body s s') s

variable {body}

theorem terminates_intro {s : σ} (h : ∀ s', Turn body s s' → Terminates body s') :
    Terminates body s := .intro s h

/-- A loop that terminates comes to an end, whatever it is answered. -/
theorem Terminates.exists_end {s : σ} (h : Terminates body s)
    (reply : List (Answered Q A) → (q : Q) → A q) (past : List (Answered Q A)) :
    ∃ trace r, Loop body s trace r ∧ Replies reply past trace := by
  induction h generalizing past with
  | intro s _ ih =>
    obtain ⟨t, r, hpath, hreplies⟩ := loops.exists_end reply (body s) past
    rcases r with e | (s' | a)
    · exact ⟨t, _, .fails hpath, hreplies⟩
    · obtain ⟨u, r, hloop, hrest⟩ := ih s' ⟨t, hpath⟩ (past ++ t)
      exact ⟨t ++ u, r, .turns hpath hloop, replies_append hreplies hrest⟩
    · exact ⟨t, _, .ends hpath, hreplies⟩

/-- What every turn keeps, holds at each turn that leaves the loop. What is said of the end stays
true when more was asked before. -/
theorem Loop.invariant {I : σ → Prop} {post : List (Answered Q A) → Except ε α → Prop}
    (hturn : ∀ s s' t, I s → Path (body s) t (.done (.ok (.inl s'))) → I s')
    (hends : ∀ s t a, I s → Path (body s) t (.done (.ok (.inr a))) → post t (.ok a))
    (hfails : ∀ s t e, I s → Path (body s) t (.done (.error e)) → post t (.error e))
    (hearlier : ∀ t u r, post u r → post (t ++ u) r)
    {s : σ} {t : List (Answered Q A)} {r : Except ε α} (h : Loop body s t r) (hs : I s) :
    post t r := by
  induction h with
  | ends hpath => exact hends _ _ _ hs hpath
  | fails hpath => exact hfails _ _ _ hs hpath
  | turns hpath _ ih => exact hearlier _ _ _ (ih (hturn _ _ _ hs hpath))

end loops
