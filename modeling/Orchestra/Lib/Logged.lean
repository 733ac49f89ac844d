-- A computation that writes a log while it runs and may stop with an error.
-- What it wrote before the error stays in the log.
import Mathlib.Data.List.Basic

namespace logged

variable {ν ε α β : Type}

/-! ## The computation -/

structure Logged (ν ε α : Type) where
  log : List ν
  result : Except ε α

namespace Logged

def ofExcept (r : Except ε α) : Logged ν ε α := ⟨[], r⟩

def fail (e : ε) : Logged ν ε α := ⟨[], .error e⟩

def note (n : ν) : Logged ν ε Unit := ⟨[n], .ok ()⟩

/-- Write a whole log, and take over its result. -/
def notes (ns : List ν) (r : Except ε α) : Logged ν ε α := ⟨ns, r⟩

/-- Run `x`, then `f` on its result. An error of `x` ends it. -/
def andThen (x : Logged ν ε α) (f : α → Logged ν ε β) : Logged ν ε β :=
  match x.result with
  | .ok a => ⟨x.log ++ (f a).log, (f a).result⟩
  | .error e => ⟨x.log, .error e⟩

instance : Monad (Logged ν ε) where
  pure a := ⟨[], .ok a⟩
  bind := andThen

def mapError (g : ε → ε) (x : Logged ν ε α) : Logged ν ε α where
  log := x.log
  result :=
    match x.result with
    | .ok a => .ok a
    | .error e => .error (g e)

theorem ext {x y : Logged ν ε α} (hl : x.log = y.log) (hr : x.result = y.result) : x = y := by
  cases x
  cases y
  simp only at hl hr
  rw [hl, hr]

@[simp] theorem log_pure (a : α) : (pure a : Logged ν ε α).log = [] := rfl

@[simp] theorem result_pure (a : α) : (pure a : Logged ν ε α).result = .ok a := rfl

/-! ## How two computations compose -/

theorem bind_ok {x : Logged ν ε α} {a : α} (f : α → Logged ν ε β) (h : x.result = .ok a) :
    x >>= f = ⟨x.log ++ (f a).log, (f a).result⟩ := by
  show andThen x f = _
  simp only [andThen, h]

theorem bind_error {x : Logged ν ε α} {e : ε} (f : α → Logged ν ε β) (h : x.result = .error e) :
    x >>= f = ⟨x.log, .error e⟩ := by
  show andThen x f = _
  simp only [andThen, h]

/-- The first note of a composition is that of its first part. -/
theorem log_bind_cons {x : Logged ν ε α} {n : ν} {more : List ν} (h : x.log = n :: more)
    (f : α → Logged ν ε β) : ∃ more', (x >>= f).log = n :: more' := by
  rcases hx : x.result with e | a
  · rw [bind_error f hx, h]
    exact ⟨more, rfl⟩
  · rw [bind_ok f hx, h]
    exact ⟨more ++ (f a).log, rfl⟩

/-- Continuations matter on the result that there is. -/
theorem bind_congr_result {x : Logged ν ε α} {f g : α → Logged ν ε β}
    (h : ∀ a, x.result = .ok a → f a = g a) : x >>= f = x >>= g := by
  rcases hx : x.result with e | a
  · rw [bind_error f hx, bind_error g hx]
  · rw [bind_ok f hx, bind_ok g hx, h a hx]

theorem bind_assoc' {γ : Type} (x : Logged ν ε α) (f : α → Logged ν ε β) (g : β → Logged ν ε γ) :
    x >>= f >>= g = x >>= fun a => f a >>= g := by
  rcases hx : x.result with e | a
  · rw [bind_error f hx, bind_error _ hx]
    rfl
  · rw [bind_ok f hx, bind_ok _ hx]
    rcases hf : (f a).result with e | b
    · rw [bind_error g hf, bind_error g rfl]
    · rw [bind_ok g hf, bind_ok g rfl, List.append_assoc]

theorem bind_pure' (x : Logged ν ε α) : x >>= pure = x := by
  rcases hx : x.result with e | a
  · rw [bind_error _ hx]
    exact ext rfl hx.symm
  · rw [bind_ok _ hx]
    exact ext (List.append_nil _) hx.symm

instance : LawfulMonad (Logged ν ε) :=
  LawfulMonad.mk' _ bind_pure' (fun _ _ => rfl) bind_assoc'

/-- Every note of a composition is good when those of both parts are. -/
theorem forall_log_bind {N : ν → Prop} {x : Logged ν ε α} {f : α → Logged ν ε β} :
    (∀ n ∈ (x >>= f).log, N n) ↔
      (∀ n ∈ x.log, N n) ∧ ∀ a, x.result = .ok a → ∀ n ∈ (f a).log, N n := by
  rcases hx : x.result with e | a
  · rw [bind_error f hx]
    refine ⟨fun h => ⟨h, ?_⟩, fun h => h.1⟩
    rintro a ⟨⟩
  · rw [bind_ok f hx]
    simp only [List.forall_mem_append]
    refine and_congr_right (fun _ => ⟨?_, fun h => h a rfl⟩)
    rintro h b ⟨⟩
    exact h

theorem note_bind (n : ν) (f : Unit → Logged ν ε β) :
    note n >>= f = ⟨n :: (f ()).log, (f ()).result⟩ := rfl

/-- A composition that ends well is two parts that end well. -/
theorem of_bind_ok {x : Logged ν ε α} {f : α → Logged ν ε β} {log : List ν} {b : β}
    (h : x >>= f = ⟨log, .ok b⟩) :
    ∃ l a m, x = ⟨l, .ok a⟩ ∧ f a = ⟨m, .ok b⟩ ∧ log = l ++ m := by
  rcases x with ⟨l, e | a⟩
  · rw [bind_error f rfl] at h
    cases h
  · rw [bind_ok f rfl] at h
    rcases hf : f a with ⟨m, r⟩
    rw [hf] at h
    cases h
    exact ⟨l, a, m, rfl, hf, rfl⟩

/-- A composition that ends with an error has it from one of the two parts. -/
theorem of_bind_error {x : Logged ν ε α} {f : α → Logged ν ε β} {log : List ν} {e : ε}
    (h : x >>= f = ⟨log, .error e⟩) :
    x = ⟨log, .error e⟩ ∨ ∃ l a m, x = ⟨l, .ok a⟩ ∧ f a = ⟨m, .error e⟩ ∧ log = l ++ m := by
  rcases x with ⟨l, e' | a⟩
  · rw [bind_error f rfl] at h
    cases h
    exact Or.inl rfl
  · rw [bind_ok f rfl] at h
    rcases hf : f a with ⟨m, r⟩
    rw [hf] at h
    cases h
    exact Or.inr ⟨l, a, m, rfl, hf, rfl⟩

/-! ## The rule of composition -/

/-- Every note that `x` writes is good, and so is what it ends with. -/
structure Meets (note : ν → Prop) (ok : α → Prop) (error : ε → Prop) (x : Logged ν ε α) :
    Prop where
  notes : ∀ n ∈ x.log, note n
  done : ∀ a, x.result = .ok a → ok a
  failed : ∀ e, x.result = .error e → error e

variable {N : ν → Prop} {P : α → Prop} {Q : β → Prop} {E : ε → Prop}

theorem meets_pure {a : α} (h : P a) : Meets N P E (pure a : Logged ν ε α) := by
  refine ⟨by simp, ?_, ?_⟩
  · rintro b ⟨⟩
    exact h
  · rintro e ⟨⟩

theorem meets_fail {e : ε} (h : E e) : Meets N P E (fail e : Logged ν ε α) := by
  refine ⟨by simp [fail], ?_, ?_⟩
  · rintro b ⟨⟩
  · rintro e' ⟨⟩
    exact h

theorem meets_note {n : ν} (h : N n) : Meets N (fun _ => True) E (note n : Logged ν ε Unit) := by
  refine ⟨by simpa [note] using h, fun _ _ => trivial, ?_⟩
  rintro e ⟨⟩

theorem meets_notes {ns : List ν} {r : Except ε α} (hn : ∀ n ∈ ns, N n)
    (hp : ∀ a, r = .ok a → P a) (he : ∀ e, r = .error e → E e) :
    Meets N P E (Logged.notes ns r) :=
  ⟨hn, hp, he⟩

theorem meets_ofExcept {r : Except ε α} (hp : ∀ a, r = .ok a → P a)
    (he : ∀ e, r = .error e → E e) : Meets N P E (ofExcept r : Logged ν ε α) :=
  meets_notes (by simp) hp he

theorem meets_bind {x : Logged ν ε α} {f : α → Logged ν ε β} (hx : Meets N P E x)
    (hf : ∀ a, x.result = .ok a → P a → Meets N Q E (f a)) : Meets N Q E (x >>= f) := by
  rcases h : x.result with e | a
  · rw [bind_error f h]
    refine ⟨hx.notes, ?_, ?_⟩
    · rintro b ⟨⟩
    · rintro e' ⟨⟩
      exact hx.failed e h
  · have hfa := hf a h (hx.done a h)
    rw [bind_ok f h]
    refine ⟨?_, hfa.done, hfa.failed⟩
    intro n hn
    rcases List.mem_append.mp hn with hn | hn
    · exact hx.notes n hn
    · exact hfa.notes n hn

theorem meets_mapError {E' : ε → Prop} {g : ε → ε} {x : Logged ν ε α} (hx : Meets N P E x)
    (hg : ∀ e, E e → E' (g e)) : Meets N P E' (mapError g x) := by
  refine ⟨hx.notes, ?_, ?_⟩
  · intro a h
    unfold mapError at h
    rcases hr : x.result with e | b
    · rw [hr] at h
      cases h
    · rw [hr] at h
      cases h
      exact hx.done a hr
  · intro e h
    unfold mapError at h
    rcases hr : x.result with e' | b
    · rw [hr] at h
      cases h
      exact hg e' (hx.failed e' hr)
    · rw [hr] at h
      cases h

theorem Meets.weaken {x : Logged ν ε α} {N' : ν → Prop} {P' : α → Prop} {E' : ε → Prop}
    (hx : Meets N P E x) (hn : ∀ n, N n → N' n) (hp : ∀ a, P a → P' a) (he : ∀ e, E e → E' e) :
    Meets N' P' E' x :=
  ⟨fun n h => hn n (hx.notes n h), fun a h => hp a (hx.done a h), fun e h => he e (hx.failed e h)⟩

/-! ## Two computations that look alike -/

/-- Both fail with the same error, or both end well with results that are
related. -/
def Agree (R : α → β → Prop) : Except ε α → Except ε β → Prop
  | .ok a, .ok b => R a b
  | .error e, .error e' => e = e'
  | _, _ => False

/-- An observer who sees of each note what `seen` says cannot tell `x` from
`y`, and their results agree. -/
structure Alike {ω : Type} (seen : ν → Option ω) (R : α → β → Prop) (x : Logged ν ε α)
    (y : Logged ν ε β) : Prop where
  log : x.log.filterMap seen = y.log.filterMap seen
  result : Agree R x.result y.result

section

variable {α' β' ω : Type} {seen : ν → Option ω} {R : α → α' → Prop} {T : β → β' → Prop}

theorem agree_eq {r s : Except ε α} : Agree (· = ·) r s ↔ r = s := by
  rcases r with e | a <;> rcases s with e' | b <;> simp [Agree]

theorem Agree.imp {S : α → α' → Prop} {r : Except ε α} {s : Except ε α'} (h : Agree R r s)
    (hRS : ∀ a b, R a b → S a b) : Agree S r s := by
  rcases r with e | a <;> rcases s with e' | b
  · exact h
  · exact h
  · exact h
  · exact hRS a b h

theorem agree_ok {r : Except ε α} {s : Except ε α'} {a : α} (h : Agree R r s) (hr : r = .ok a) :
    ∃ b, s = .ok b ∧ R a b := by
  subst hr
  rcases s with e | b
  · exact h.elim
  · exact ⟨b, rfl, h⟩

theorem agree_error {r : Except ε α} {s : Except ε α'} {e : ε} (h : Agree R r s)
    (hr : r = .error e) : s = .error e := by
  subst hr
  rcases s with e' | b
  · exact congrArg Except.error (Eq.symm h)
  · exact h.elim

theorem alike_pure {a : α} {b : α'} (h : R a b) :
    Alike seen R (pure a : Logged ν ε α) (pure b) := ⟨rfl, h⟩

theorem alike_ofExcept {r : Except ε α} {s : Except ε α'} (h : Agree R r s) :
    Alike seen R (ofExcept r : Logged ν ε α) (ofExcept s) := ⟨rfl, h⟩

theorem alike_note {n m : ν} (h : seen n = seen m) :
    Alike seen (fun _ _ => True) (note n : Logged ν ε Unit) (note m) := by
  refine ⟨?_, trivial⟩
  simp only [note, List.filterMap_cons, h, List.filterMap_nil]

/-- Alike computations, with continuations that are alike on related results. -/
theorem alike_bind {x : Logged ν ε α} {y : Logged ν ε α'} {f : α → Logged ν ε β}
    {g : α' → Logged ν ε β'} (h : Alike seen R x y)
    (hf : ∀ a b, x.result = .ok a → y.result = .ok b → R a b → Alike seen T (f a) (g b)) :
    Alike seen T (x >>= f) (y >>= g) := by
  rcases hx : x.result with e | a
  · have hy := agree_error h.result hx
    rw [bind_error f hx, bind_error g hy]
    exact ⟨h.log, rfl⟩
  · obtain ⟨b, hy, hab⟩ := agree_ok h.result hx
    have hfg := hf a b hx hy hab
    rw [bind_ok f hx, bind_ok g hy]
    refine ⟨?_, hfg.result⟩
    simp only [List.filterMap_append, h.log, hfg.log]

/-- Computations that agree, with continuations that agree on related results. -/
theorem agree_bind {x : Logged ν ε α} {y : Logged ν ε α'} {f : α → Logged ν ε β}
    {g : α' → Logged ν ε β'} (h : Agree R x.result y.result)
    (hf : ∀ a b, R a b → Agree T (f a).result (g b).result) :
    Agree T (x >>= f).result (y >>= g).result := by
  rcases hx : x.result with e | a
  · rw [bind_error f hx, bind_error g (agree_error h hx)]
    rfl
  · obtain ⟨b, hy, hab⟩ := agree_ok h hx
    rw [bind_ok f hx, bind_ok g hy]
    exact hf a b hab

end

end Logged

end logged
