-- Requests that are made again while their replies are passing failures, with a wait between
-- one request and the next: which runs there are.
import Orchestra.Lib.Program

open programs

namespace attempts

open Program

variable {B R ε α : Type}

/-- What a client does: it sends a request, or it waits. -/
inductive Ask (B : Type)
  | post (body : B)
  | sleep (seconds : Nat)

@[reducible] def Answer (R : Type) : Ask B → Type
  | .post _ => R
  | .sleep _ => Unit

abbrev Code (B R ε α : Type) : Type := Program (Ask B) (Answer R) ε α

abbrev Trace (B R : Type) : Type := List (Answered (Ask B) (Answer R))

/-- What is made of a reply: the end of the attempts, or a failure that may pass. -/
inductive Verdict (ε α : Type)
  | stop (r : Except ε α)
  | again (e : ε)

/-- How replies are judged, and how long the client waits after attempt `k`. -/
structure Policy (R ε α : Type) where
  judge : R → Verdict ε α
  delay : Nat → R → Nat

/-- `left` more attempts, the first of them number `k`. The last one is not waited for. -/
def Policy.run (P : Policy R ε α) (body : B) (k : Nat) : Nat → Except ε α → Code B R ε α
  | 0, last => ofExcept last
  | left + 1, _ => do
    let reply ← query (.post body : Ask B)
    match P.judge reply with
    | .stop r => ofExcept r
    | .again e =>
      if 0 < left then
        query (.sleep (P.delay k reply) : Ask B)
        P.run body (k + 1) left (.error e)
      else P.run body (k + 1) left (.error e)

theorem Policy.run_succ (P : Policy R ε α) (body : B) (k left : Nat) (last : Except ε α) :
    P.run body k (left + 1) last = .ask (.post body) (fun reply =>
      match P.judge reply with
      | .stop r => .done r
      | .again e =>
        if 0 < left then
          .ask (.sleep (P.delay k reply)) (fun _ => P.run body (k + 1) left (.error e))
        else P.run body (k + 1) left (.error e)) := rfl

/-- The requests that failed, each with the wait after it. -/
def Policy.waits (P : Policy R ε α) (body : B) : Nat → List R → Trace B R
  | _, [] => []
  | k, r :: rest => ⟨.post body, r⟩ :: ⟨.sleep (P.delay k r), ()⟩ :: P.waits body (k + 1) rest

/-- A failure that may pass. -/
def Policy.Transient (P : Policy R ε α) (r : R) : Prop := ∃ e, P.judge r = .again e

/-- How the attempts end with this reply as the last one. -/
def Policy.outcome (P : Policy R ε α) (r : R) : Except ε α :=
  match P.judge r with
  | .stop r => r
  | .again e => .error e

/-- A whole run: requests that failed, each but the last one of the run. A passing failure is the
last one only when no attempt is left. -/
structure Policy.Course (P : Policy R ε α) (body : B) (k left : Nat) (failed : List R) (last : R)
    (t : Trace B R) (r : Except ε α) : Prop where
  trace : t = P.waits body k failed ++ [⟨.post body, last⟩]
  transient : ∀ r ∈ failed, P.Transient r
  room : failed.length < left
  gaveUp : P.Transient last → failed.length + 1 = left
  outcome : r = P.outcome last

variable {P : Policy R ε α} {body : B} {k left : Nat} {t : Trace B R} {r : Except ε α}

theorem path_done {p : Except ε α} (h : Path (.done p : Code B R ε α) t (.done r)) :
    t = [] ∧ r = p := by
  cases h
  exact ⟨rfl, rfl⟩

/-- Every run is such a course. -/
theorem course_of_path (last : Except ε α) (hleft : 0 < left)
    (h : Path (P.run body k left last) t (.done r)) :
    ∃ failed reply, P.Course body k left failed reply t r := by
  induction left generalizing k t last with
  | zero => omega
  | succ left ih =>
    rw [P.run_succ] at h
    cases h with
    | answer reply rest =>
      rcases hjudge : P.judge reply with result | e
      · simp only [hjudge] at rest
        obtain ⟨rfl, rfl⟩ := path_done rest
        refine ⟨[], reply, rfl, nofun, by simp, ?_, by simp [Policy.outcome, hjudge]⟩
        rintro ⟨e, he⟩
        rw [hjudge] at he
        cases he
      · simp only [hjudge] at rest
        by_cases hmore : 0 < left
        · rw [if_pos hmore] at rest
          cases rest with
          | answer u rest =>
            obtain ⟨failed, last, hcourse⟩ := ih (.error e) hmore rest
            refine ⟨reply :: failed, last, ?_, ?_, ?_, ?_, hcourse.outcome⟩
            · rw [hcourse.trace]
              rfl
            · intro r hr
              rcases List.mem_cons.mp hr with rfl | hr
              · exact ⟨e, hjudge⟩
              · exact hcourse.transient r hr
            · have := hcourse.room
              simp only [List.length_cons]
              omega
            · intro hlast
              have := hcourse.gaveUp hlast
              simp only [List.length_cons]
              omega
        · rw [if_neg hmore] at rest
          obtain rfl : left = 0 := by omega
          obtain ⟨rfl, rfl⟩ := path_done rest
          exact ⟨[], reply, rfl, nofun, by simp, fun _ => rfl, by simp [Policy.outcome, hjudge]⟩

/-- Every such course is a run. -/
theorem path_of_course (first : Except ε α) {failed : List R} {last : R}
    (h : P.Course body k left failed last t r) : Path (P.run body k left first) t (.done r) := by
  induction failed generalizing k left t first with
  | nil =>
    obtain ⟨rfl, -, hroom, hlast, rfl⟩ := h
    obtain ⟨left, rfl⟩ : ∃ n, left = n + 1 := ⟨left - 1, by simp at hroom; omega⟩
    rw [P.run_succ]
    refine Path.answer (A := Answer R) (q := .post body) last ?_
    rcases hjudge : P.judge last with result | e
    · simp only [Policy.outcome, hjudge]
      exact .stay _
    · have hzero := hlast ⟨e, hjudge⟩
      simp only [List.length_nil] at hzero
      obtain rfl : left = 0 := by omega
      simp only [Policy.outcome, hjudge]
      exact .stay _
  | cons reply failed ih =>
    obtain ⟨rfl, hfailed, hroom, hlast, rfl⟩ := h
    simp only [List.length_cons] at hroom hlast
    obtain ⟨left, rfl⟩ : ∃ n, left = n + 1 := ⟨left - 1, by omega⟩
    obtain ⟨e, hjudge⟩ := hfailed reply (List.mem_cons_self ..)
    rw [P.run_succ]
    refine Path.answer (A := Answer R) (q := .post body) reply ?_
    simp only [hjudge]
    rw [if_pos (by omega)]
    refine Path.answer (A := Answer R) (q := .sleep _) () (ih (.error e) ⟨rfl, fun r hr => hfailed r (List.mem_cons_of_mem _ hr),
      by omega, fun h => ?_, rfl⟩)
    have := hlast h
    omega

/-- The runs of a policy with an attempt left. -/
theorem path_iff (first : Except ε α) (hleft : 0 < left) :
    Path (P.run body k left first) t (.done r) ↔
      ∃ failed last, P.Course body k left failed last t r :=
  ⟨course_of_path first hleft, fun ⟨_, _, h⟩ => path_of_course first h⟩

/-! ## Time -/

/-- The seconds that a client has waited. -/
def slept : Answered (Ask B) (Answer R) → Nat
  | ⟨.sleep seconds, _⟩ => seconds
  | _ => 0

/-- The requests that it has made. -/
def posts : Answered (Ask B) (Answer R) → Nat
  | ⟨.post _, _⟩ => 1
  | _ => 0

theorem posts_waits (k : Nat) (failed : List R) : tally posts (P.waits body k failed) = failed.length := by
  induction failed generalizing k with
  | nil => rfl
  | cons r rest ih =>
    have := ih (k + 1)
    simp only [tally, Policy.waits, List.map_cons, List.sum_cons, posts, List.length_cons] at this ⊢
    omega

/-- When attempt `k` is waited for at most `2 ^ k` seconds, all waits take less than the
wait that would be next. -/
theorem slept_waits (hdelay : ∀ k r, P.delay k r ≤ 2 ^ k) (k : Nat) (failed : List R) :
    tally slept (P.waits body k failed) + 2 ^ k ≤ 2 ^ (k + failed.length) := by
  induction failed generalizing k with
  | nil => simp [Policy.waits]
  | cons r rest ih =>
    have hrest := ih (k + 1)
    have hone := hdelay k r
    have hpow : 2 ^ (k + 1) = 2 ^ k + 2 ^ k := by rw [Nat.pow_succ]; omega
    rw [show k + 1 + rest.length = k + (rest.length + 1) by omega] at hrest
    simp only [tally, Policy.waits, List.map_cons, List.sum_cons, slept, List.length_cons]
      at hrest ⊢
    omega

end attempts
