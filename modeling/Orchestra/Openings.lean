-- When the circuit breaker opens. It counts the failures since it was last closed, and
-- a success of a closed breaker leaves them counted, so they need not stand in a row.
import Orchestra.Breaker

namespace orchestra.openings

open orchestra.breaker

variable {T : Type} [Zero T] [Sub T] [LE T] [DecidableLE T]

/-! ## Failures in a row -/

/-- The row of failures after one more call. -/
def row (failures : Nat) : Call T → Nat
  | .allowRequest _ => failures
  | .recordSuccess => 0
  | .recordFailure _ => failures + 1

/-- The count of a breaker that stays closed, after one more call. -/
def count (failures : Nat) : Call T → Nat
  | .recordFailure _ => failures + 1
  | _ => failures

/-- How many failures the calls have recorded since their last success. -/
def failuresInARow (calls : List (Call T)) : Nat := calls.foldl row 0

/-- A closed breaker opens at a failure that makes the row as long as the threshold, and
at no other call. -/
def OpensOnRows (c : Config T) (calls : List (Call T)) : Prop :=
  ∀ before call rest, calls = before ++ call :: rest → (run c before).state = .closed →
    ((run c (before ++ [call])).state = .opened ↔
      (∃ now, call = .recordFailure now) ∧ c.failureThreshold ≤ failuresInARow (before ++ [call]))

/-- Closed after these calls, the breaker stays so for the further ones. -/
def StaysClosed (c : Config T) (before further : List (Call T)) : Prop :=
  ∀ some, some <+: further → (run c (before ++ some)).state = .closed

/-- A success after counted failures is not followed by as many failures as are missing
up to the threshold, all of it while the breaker is closed. -/
def NoStaleFailures (c : Config T) (calls : List (Call T)) : Prop :=
  ∀ before further now rest,
    calls = before ++ .recordSuccess :: (further ++ .recordFailure now :: rest) →
    (run c before).state = .closed → (run c before).failureCount ≠ 0 →
    StaysClosed c before (.recordSuccess :: further) →
    (run c (before ++ .recordSuccess :: further)).failureCount + 1 < c.failureThreshold

/-! ## The count and the row -/

variable {c : Config T} {breaker : AsyncCircuitBreaker T} {calls : List (Call T)}

omit [Zero T] [Sub T] [LE T] [DecidableLE T] in
theorem failuresInARow_snoc (calls : List (Call T)) (call : Call T) :
    failuresInARow (calls ++ [call]) = row (failuresInARow calls) call := by
  simp [failuresInARow, List.foldl_append]

/-- What a call does to a closed breaker: only a failure that reaches the threshold
opens it. -/
theorem step_closed (c : Config T) (h : breaker.state = .closed) (call : Call T) :
    ((step c breaker call).1.state = .opened ∧ (∃ now, call = .recordFailure now) ∧
        c.failureThreshold ≤ breaker.failureCount + 1) ∨
      ((step c breaker call).1.state = .closed ∧
        (step c breaker call).1.failureCount =
          count breaker.failureCount call) := by
  cases call with
  | allowRequest now => exact .inr (by simp [step, allowRequest, count, h])
  | recordSuccess => exact .inr (by simp [step, recordSuccess, count, h])
  | recordFailure now =>
    by_cases hfull : c.failureThreshold ≤ breaker.failureCount + 1
    · exact .inl (by simp [step, recordFailure, h, hfull])
    · exact .inr (by simp [step, recordFailure, count, h, hfull])

/-- Closed after a call, the breaker was closed before it, or half open and the call
recorded the success of the probe. -/
theorem closed_of_step {call : Call T} (h : (step c breaker call).1.state = .closed) :
    breaker.state = .closed ∨ call = .recordSuccess ∧ (step c breaker call).1.failureCount = 0 := by
  rcases hstate : breaker.state with _ | _ | _
  · exact .inl rfl
  · cases call with
    | allowRequest now =>
      rcases allowRequest_of_opened c now hstate with ⟨hhalf, -⟩ | hsame
      · rw [show (step c breaker (.allowRequest now)).1.state = .halfOpen from hhalf] at h
        cases h
      · simp [step, hsame, hstate] at h
    | recordSuccess => simp [step, recordSuccess, hstate] at h
    | recordFailure now => simp [step, recordFailure, hstate] at h
  · cases call with
    | allowRequest now => simp [step, allowRequest, hstate] at h
    | recordSuccess => exact .inr ⟨rfl, by simp [step, recordSuccess, hstate]⟩
    | recordFailure now => simp [step, recordFailure, hstate] at h

/-- The row and the count grow together while the breaker stays closed, except that a
success ends the row. -/
theorem row_le_of_step {failures : Nat} {call : Call T} (hclosed : breaker.state = .closed)
    (hstays : (step c breaker call).1.state = .closed) (h : failures ≤ breaker.failureCount) :
    row failures call ≤ (step c breaker call).1.failureCount := by
  rcases step_closed c hclosed call with ⟨hopened, -⟩ | ⟨-, hcount⟩
  · rw [hstays] at hopened
    cases hopened
  · rw [hcount]
    cases call <;> simp [row, count, h]

theorem row_lt_of_step {failures : Nat} {call : Call T} (hclosed : breaker.state = .closed)
    (hstays : (step c breaker call).1.state = .closed) (h : failures < breaker.failureCount) :
    row failures call < (step c breaker call).1.failureCount := by
  rcases step_closed c hclosed call with ⟨hopened, -⟩ | ⟨-, hcount⟩
  · rw [hstays] at hopened
    cases hopened
  · rw [hcount]
    cases call with
    | allowRequest now => simpa [row, count] using h
    | recordSuccess => simpa [row, count] using Nat.zero_lt_of_lt h
    | recordFailure now => simpa [row, count] using h

/-- A closed breaker has counted all failures of the row. -/
theorem row_le_count (h : (run c calls).state = .closed) :
    failuresInARow calls ≤ (run c calls).failureCount := by
  induction calls using List.reverseRecOn with
  | nil => rfl
  | append_singleton calls call ih =>
    rw [run_snoc] at h ⊢
    rw [failuresInARow_snoc]
    rcases closed_of_step h with hclosed | ⟨rfl, hzero⟩
    · exact row_le_of_step hclosed h (ih hclosed)
    · rw [hzero]
      rfl

/-! ## Stale failures -/

theorem StaysClosed.here {before further : List (Call T)} (h : StaysClosed c before further) :
    (run c (before ++ further)).state = .closed := h further (List.prefix_refl _)

/-- After a success that leaves failures counted, the count is ahead of the row. -/
theorem row_lt_count {before further : List (Call T)}
    (hcounted : (run c before).failureCount ≠ 0)
    (hstays : StaysClosed c before (.recordSuccess :: further)) :
    failuresInARow (before ++ .recordSuccess :: further) <
      (run c (before ++ .recordSuccess :: further)).failureCount := by
  induction further using List.reverseRecOn with
  | nil =>
    have hclosed : (run c before).state = .closed := by simpa using hstays [] (List.nil_prefix)
    rcases step_closed c hclosed .recordSuccess with ⟨-, ⟨now, hcall⟩, -⟩ | ⟨-, hcount⟩
    · cases hcall
    · rw [failuresInARow_snoc, run_snoc, hcount]
      simpa [row, count] using Nat.pos_of_ne_zero hcounted
  | append_singleton further call ih =>
    have hfurther : StaysClosed c before (.recordSuccess :: further) :=
      fun some hsome => hstays some (hsome.trans ⟨[call], rfl⟩)
    have hnow := hstays.here
    rw [← List.cons_append, ← List.append_assoc, run_snoc] at hnow ⊢
    rw [failuresInARow_snoc]
    exact row_lt_of_step hfurther.here hnow (ih hfurther)

/-- Where the count is ahead of the row, a success has left failures counted. -/
theorem exists_stale (h : (run c calls).state = .closed)
    (hne : failuresInARow calls ≠ (run c calls).failureCount) :
    ∃ before further, calls = before ++ .recordSuccess :: further ∧
      (run c before).failureCount ≠ 0 ∧ StaysClosed c before (.recordSuccess :: further) := by
  induction calls using List.reverseRecOn with
  | nil => exact absurd rfl hne
  | append_singleton calls call ih =>
    rw [failuresInARow_snoc, run_snoc] at hne
    have hstep := h
    rw [run_snoc] at hstep
    rcases closed_of_step hstep with hclosed | ⟨rfl, hzero⟩
    · by_cases heq : failuresInARow calls = (run c calls).failureCount
      · rcases step_closed c hclosed call with ⟨hopened, -⟩ | ⟨-, hcount⟩
        · rw [hstep] at hopened
          cases hopened
        · cases call with
          | allowRequest now => exact absurd (by simp [row, count, heq, hcount]) hne
          | recordSuccess =>
            refine ⟨calls, [], rfl, ?_, ?_⟩
            · intro hnone
              exact hne (by simp [row, count, hcount, hnone])
            · intro some hsome
              rcases List.prefix_cons_iff.mp hsome with rfl | ⟨t, rfl, ht⟩
              · simpa using hclosed
              · rw [List.prefix_nil.mp ht]
                exact h
          | recordFailure now => exact absurd (by simp [row, count, heq, hcount]) hne
      · obtain ⟨before, further, rfl, hcounted, hstays⟩ := ih hclosed heq
        refine ⟨before, further ++ [call], by simp, hcounted, ?_⟩
        intro some hsome
        rw [← List.cons_append, List.prefix_concat_iff] at hsome
        rcases hsome with rfl | hsome
        · simpa using h
        · exact hstays some hsome
    · exact absurd (by simp [row, hzero]) hne

/-- In every run the breaker opens on rows of failures, just when no success stands
between failures that it counts together up to the threshold. -/
theorem opensOnRows_iff (c : Config T) (calls : List (Call T)) :
    OpensOnRows c calls ↔ NoStaleFailures c calls := by
  constructor
  · intro hopens before further now rest heq hclosed hcounted hstays
    have hhere := hstays.here
    have hbelow := (sound_run c _).below hhere
    have hstale := row_lt_count hcounted hstays
    by_contra hfull
    have hmove := hopens (before ++ .recordSuccess :: further) (.recordFailure now) rest
      (by simp [heq]) hhere
    rw [run_snoc, failuresInARow_snoc] at hmove
    rcases step_closed c hhere (.recordFailure now) with ⟨hopened, -⟩ | ⟨hstill, hcount⟩
    · have hrow := (hmove.mp hopened).2
      simp only [row] at hrow
      omega
    · have hcountBelow := (sound_step (sound_run c _) (.recordFailure now)).below hstill
      rw [hcount] at hcountBelow
      simp only [count] at hcountBelow
      omega
  · intro hnone before call rest heq hclosed
    rw [run_snoc, failuresInARow_snoc]
    rcases step_closed c hclosed call with ⟨hopened, ⟨now, rfl⟩, hfull⟩ | ⟨hstill, hcount⟩
    · refine ⟨fun _ => ⟨⟨now, rfl⟩, ?_⟩, fun _ => hopened⟩
      have hrow : failuresInARow before = (run c before).failureCount := by
        by_contra hne
        obtain ⟨early, further, rfl, hcounted, hstays⟩ := exists_stale hclosed hne
        have hclosedEarly : (run c early).state = .closed := by
          simpa using hstays [] List.nil_prefix
        have hmissing := hnone early further now rest (by simp [heq]) hclosedEarly hcounted hstays
        omega
      simp only [row]
      omega
    · refine ⟨fun hopened => ?_, ?_⟩
      · rw [hstill] at hopened
        cases hopened
      · rintro ⟨⟨now, rfl⟩, hfull⟩
        have hcountBelow := (sound_step (sound_run c before) (.recordFailure now)).below hstill
        have hrow := row_le_of_step hclosed hstill (row_le_count hclosed)
        omega

/-- With a threshold of two, two failures around a success open the breaker. -/
theorem not_opensOnRows : ¬∀ (c : Config Int) (calls : List (Call Int)), OpensOnRows c calls := by
  intro h
  have hmove := h ⟨2, 30, by decide, by decide⟩
    [.recordFailure 0, .recordSuccess, .recordFailure 1] [.recordFailure 0, .recordSuccess]
    (.recordFailure 1) [] rfl (by decide)
  have hrow := (hmove.mp (by decide)).2
  exact absurd hrow (by decide)

end orchestra.openings
