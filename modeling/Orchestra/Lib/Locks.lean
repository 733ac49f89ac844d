-- Locks by key: connections ask for the lock of a key, wait until no other one has it, and give it
-- back when they leave. Two that are inside have different keys, and any two keys that differ let
-- two connections inside together.
import Mathlib.Logic.Function.Basic
import Orchestra.Lib.Machine

open machine

namespace locks

variable {Conn Request Key : Type}

/-! ## Connections and locks -/

inductive Phase
  | waiting
  | inside
deriving DecidableEq

/-- What each connection is at, if anything. -/
abbrev Sessions (Conn Request : Type) : Type := Conn → Option (Request × Phase)

inductive Step (Conn Request : Type)
  | ask (c : Conn) (r : Request)
  | grant (c : Conn)
  | leave (c : Conn)

def Inside (s : Sessions Conn Request) (c : Conn) (r : Request) : Prop := s c = some (r, .inside)

variable [DecidableEq Conn]

/-- A connection that has nothing to do asks for the lock of a request, one that waits gets it when
no connection is inside with the same key, and one leaves at any time, also while it waits. -/
def machine (key : Conn → Request → Key) : Machine (Sessions Conn Request) (Step Conn Request) where
  init s := ∀ c, s c = none
  step s a t :=
    match a with
    | .ask c r => s c = none ∧ t = Function.update s c (some (r, .waiting))
    | .grant c => ∃ r, s c = some (r, .waiting) ∧ (∀ d q, Inside s d q → key d q ≠ key c r) ∧
        t = Function.update s c (some (r, .inside))
    | .leave c => s c ≠ none ∧ t = Function.update s c none

variable {key : Conn → Request → Key} {s t : Sessions Conn Request}

/-! ## What a step changes -/

theorem inside_update {c d : Conn} {v : Option (Request × Phase)} {q : Request}
    (h : Inside (Function.update s c v) d q) :
    d = c ∧ v = some (q, .inside) ∨ d ≠ c ∧ Inside s d q := by
  unfold Inside at h
  by_cases hd : d = c
  · subst hd
    rw [Function.update_self] at h
    exact .inl ⟨rfl, h⟩
  · rw [Function.update_of_ne hd] at h
    exact .inr ⟨hd, h⟩

/-- A connection comes inside by a grant only. -/
theorem inside_step {a : Step Conn Request} (h : (machine key).step s a t) {d : Conn} {q : Request}
    (hd : Inside t d q) : Inside s d q ∨ a = .grant d ∧ s d = some (q, .waiting) ∧
      ∀ e p, Inside s e p → key e p ≠ key d q := by
  cases a with
  | ask c r =>
    obtain ⟨-, rfl⟩ := h
    rcases inside_update hd with ⟨-, hv⟩ | ⟨-, hd⟩
    · cases hv
    · exact .inl hd
  | grant c =>
    obtain ⟨r, hwaits, hfree, rfl⟩ := h
    rcases inside_update hd with ⟨rfl, hv⟩ | ⟨-, hd⟩
    · cases hv
      exact .inr ⟨rfl, hwaits, hfree⟩
    · exact .inl hd
  | leave c =>
    obtain ⟨-, rfl⟩ := h
    rcases inside_update hd with ⟨-, hv⟩ | ⟨-, hd⟩
    · cases hv
    · exact .inl hd

/-- What a connection is at was asked for. -/
theorem session_step {a : Step Conn Request} (h : (machine key).step s a t) {d : Conn} {q : Request}
    {phase : Phase} (hd : t d = some (q, phase)) :
    (∃ before, s d = some (q, before)) ∨ a = .ask d q := by
  cases a with
  | ask c r =>
    obtain ⟨-, rfl⟩ := h
    by_cases hc : d = c
    · subst hc
      rw [Function.update_self] at hd
      cases hd
      exact .inr rfl
    · rw [Function.update_of_ne hc] at hd
      exact .inl ⟨_, hd⟩
  | grant c =>
    obtain ⟨r, hwaits, -, rfl⟩ := h
    by_cases hc : d = c
    · subst hc
      rw [Function.update_self] at hd
      cases hd
      exact .inl ⟨_, hwaits⟩
    · rw [Function.update_of_ne hc] at hd
      exact .inl ⟨_, hd⟩
  | leave c =>
    obtain ⟨-, rfl⟩ := h
    by_cases hc : d = c
    · subst hc
      rw [Function.update_self] at hd
      cases hd
    · rw [Function.update_of_ne hc] at hd
      exact .inl ⟨_, hd⟩

/-! ## One connection for each key -/

/-- No two connections are inside with one key. -/
def Guarded (key : Conn → Request → Key) (s : Sessions Conn Request) : Prop :=
  ∀ c d r q, Inside s c r → Inside s d q → key c r = key d q → c = d

theorem guarded_step {a : Step Conn Request} (hs : Guarded key s) (h : (machine key).step s a t) :
    Guarded key t := by
  intro c d r q hc hd hkey
  rcases inside_step h hc with hc | ⟨rfl, -, hfree⟩
  · rcases inside_step h hd with hd | ⟨rfl, -, hfree⟩
    · exact hs c d r q hc hd hkey
    · exact absurd hkey (hfree c r hc)
  · rcases inside_step h hd with hd | ⟨hgrant, -, -⟩
    · exact absurd hkey.symm (hfree d q hd)
    · cases hgrant
      rfl

theorem guarded_of_reachable (h : Reachable (machine key) s) : Guarded key s := by
  refine h.invariant (fun s hs c d r q hc _ _ => ?_) fun _ _ _ hs hstep => guarded_step hs hstep
  rw [Inside, hs c] at hc
  cases hc

/-- What the connections are at is allowed to be asked for. -/
def Asked (allowed : Conn → Request → Prop) (s : Sessions Conn Request) : Prop :=
  ∀ c r phase, s c = some (r, phase) → allowed c r

theorem asked_step {allowed : Conn → Request → Prop} {a : Step Conn Request}
    (hs : Asked allowed s) (h : (machine key).step s a t)
    (ha : ∀ c r, a = .ask c r → allowed c r) : Asked allowed t := by
  intro c r phase hc
  rcases session_step h hc with ⟨before, hbefore⟩ | hask
  · exact hs c r before hbefore
  · exact ha c r hask

theorem asked_of_restrict {allowed : Conn → Request → Prop}
    (h : Reachable ((machine key).restrict fun _ a => ∀ c r, a = .ask c r → allowed c r) s) :
    Asked allowed s := by
  refine h.invariant (I := Asked allowed) (fun s hs c r phase hc => ?_) ?_
  · rw [hs c] at hc
    cases hc
  · exact fun u a v hu hstep => asked_step hu hstep.1 hstep.2

/-- With different keys two connections come inside together. -/
theorem both_inside {c d : Conn} (hcd : c ≠ d) {r q : Request} (hkey : key c r ≠ key d q) :
    ∃ s, Reachable (machine key) s ∧ Inside s c r ∧ Inside s d q := by
  let s0 : Sessions Conn Request := fun _ => none
  let s1 := Function.update s0 c (some (r, .waiting))
  let s2 := Function.update s1 c (some (r, .inside))
  let s3 := Function.update s2 d (some (q, .waiting))
  let s4 := Function.update s3 d (some (q, .inside))
  have h1 : (machine key).step s0 (.ask c r) s1 := ⟨rfl, rfl⟩
  have h2 : (machine key).step s1 (.grant c) s2 := by
    refine ⟨r, Function.update_self .., fun e p he => ?_, rfl⟩
    rcases inside_update he with ⟨-, hv⟩ | ⟨-, he⟩
    · cases hv
    · cases he
  have h3 : (machine key).step s2 (.ask d q) s3 := by
    refine ⟨?_, rfl⟩
    simp only [s2, s1, s0, Function.update_of_ne hcd.symm]
  have h4 : (machine key).step s3 (.grant d) s4 := by
    refine ⟨q, Function.update_self .., fun e p he => ?_, rfl⟩
    rcases inside_update he with ⟨-, hv⟩ | ⟨-, he⟩
    · cases hv
    · rcases inside_update he with ⟨rfl, hv⟩ | ⟨-, he⟩
      · cases hv
        exact hkey
      · rcases inside_update he with ⟨-, hv⟩ | ⟨-, he⟩
        · cases hv
        · cases he
  refine ⟨s4, ((((reachable_init fun _ => rfl).step h1).step h2).step h3).step h4, ?_,
    Function.update_self ..⟩
  simp only [s4, s3, s2, Inside, Function.update_of_ne hcd, Function.update_self]

end locks
