-- The circuit breaker (`security/circuit_breaker.py`). The lock makes each call one
-- step, so what any number of clients do is one list of calls, each with the time
-- that its client read from the clock.
import Mathlib.Algebra.Order.Ring.Int
import Mathlib.Data.List.Induction
import Orchestra.Values

namespace orchestra.breaker

/-! ## The breaker -/

inductive CircuitState
  | closed
  | opened
  | halfOpen
deriving DecidableEq, Repr

/-- The arguments that the constructor takes. -/
structure Config (T : Type) [Zero T] [LE T] where
  failureThreshold : Int
  resetTimeout : T
  threshold_pos : ¬failureThreshold < 1
  timeout_pos : ¬resetTimeout ≤ 0

/-- The fields that change. `T` holds the readings of the clock. -/
structure AsyncCircuitBreaker (T : Type) where
  state : CircuitState
  failureCount : Nat
  successCount : Nat
  lastFailureTime : Option T
deriving DecidableEq, Repr

section breaker

variable {T : Type} [Zero T] [Sub T] [LE T] [DecidableLE T]

def configure (failureThreshold : Int) (resetTimeout : T) : Except Raised (Config T) :=
  if hcount : failureThreshold < 1 then
    .error ⟨"ValueError", "failure_threshold must be >= 1", false⟩
  else if htime : resetTimeout ≤ 0 then
    .error ⟨"ValueError", "reset_timeout must be > 0", false⟩
  else .ok ⟨failureThreshold, resetTimeout, hcount, htime⟩

def initial : AsyncCircuitBreaker T := ⟨.closed, 0, 0, none⟩

/-- `allow_request` -/
def allowRequest (c : Config T) (breaker : AsyncCircuitBreaker T) (now : T) :
    AsyncCircuitBreaker T × Bool :=
  match breaker.state with
  | .closed => (breaker, true)
  | .opened =>
    match breaker.lastFailureTime with
    | some failed =>
      if c.resetTimeout ≤ now - failed then ({ breaker with state := .halfOpen }, true)
      else (breaker, false)
    | none => (breaker, false)
  -- whoever asks while the probe is out is let through as well
  | .halfOpen => (breaker, true)

/-- `record_success` -/
def recordSuccess (breaker : AsyncCircuitBreaker T) : AsyncCircuitBreaker T :=
  let counted := { breaker with successCount := breaker.successCount + 1 }
  if breaker.state = .halfOpen then { counted with state := .closed, failureCount := 0 }
  else counted

/-- `record_failure` -/
def recordFailure (c : Config T) (breaker : AsyncCircuitBreaker T) (now : T) :
    AsyncCircuitBreaker T :=
  let counted :=
    { breaker with failureCount := breaker.failureCount + 1, lastFailureTime := some now }
  match breaker.state with
  | .halfOpen => { counted with state := .opened }
  | .closed =>
    if c.failureThreshold ≤ counted.failureCount then { counted with state := .opened }
    else counted
  | .opened => counted

/-! ## Calls of clients -/

inductive Call (T : Type)
  | allowRequest (now : T)
  | recordSuccess
  | recordFailure (now : T)
deriving DecidableEq, Repr

/-- The call records how a request ended. -/
def Call.IsOutcome : Call T → Prop
  | .allowRequest _ => False
  | .recordSuccess => True
  | .recordFailure _ => True

/-- The breaker after a call, and whether the call let a request through. -/
def step (c : Config T) (breaker : AsyncCircuitBreaker T) :
    Call T → AsyncCircuitBreaker T × Bool
  | .allowRequest now => allowRequest c breaker now
  | .recordSuccess => (recordSuccess breaker, false)
  | .recordFailure now => (recordFailure c breaker now, false)

/-- A new breaker after the calls. -/
def run (c : Config T) (calls : List (Call T)) : AsyncCircuitBreaker T :=
  calls.foldl (fun breaker call => (step c breaker call).1) initial

/-- How many of the calls let a request through. -/
def admitted (c : Config T) (breaker : AsyncCircuitBreaker T) : List (Call T) → Nat
  | [] => 0
  | call :: rest =>
    (step c breaker call).2.toNat + admitted c (step c breaker call).1 rest

/-- A call turns the open breaker half open. -/
def Probes (c : Config T) (calls : List (Call T)) (now : T) : Prop :=
  (run c calls).state = .opened ∧ (allowRequest c (run c calls) now).1.state = .halfOpen

/-- From each call that turns the breaker half open up to the next outcome, one request
is let through. -/
def OneProbe (c : Config T) (calls : List (Call T)) : Prop :=
  ∀ before now waiting rest, calls = before ++ .allowRequest now :: (waiting ++ rest) →
    Probes c before now → (∀ call ∈ waiting, ¬call.IsOutcome) →
    admitted c (run c before) (.allowRequest now :: waiting) = 1

/-- No client asks while the breaker is half open. -/
def NobodyElseAsks (c : Config T) (calls : List (Call T)) : Prop :=
  ∀ before now rest, calls = before ++ .allowRequest now :: rest →
    (run c before).state ≠ .halfOpen

/-! ## What a call does -/

variable {c : Config T} {breaker : AsyncCircuitBreaker T} {now : T}

omit [Sub T] in
theorem configure_ok_iff {failureThreshold : Int} {resetTimeout : T} :
    (∃ c, configure failureThreshold resetTimeout = .ok c) ↔
      1 ≤ failureThreshold ∧ ¬resetTimeout ≤ 0 := by
  unfold configure
  split
  · rename_i hcount
    simp only [reduceCtorEq, exists_false, false_iff, not_and]
    omega
  · rename_i hcount
    split
    · rename_i htime
      simp [htime]
    · rename_i htime
      have hpos : 1 ≤ failureThreshold := by omega
      simp [hpos, htime]

/-- A request is let through unless the breaker is open and its time is not over. -/
theorem allowRequest_eq_true_iff :
    (allowRequest c breaker now).2 = true ↔
      breaker.state = .opened →
        ∃ failed, breaker.lastFailureTime = some failed ∧ c.resetTimeout ≤ now - failed := by
  unfold allowRequest
  rcases hstate : breaker.state with _ | _ | _
  · simp
  · rcases hlast : breaker.lastFailureTime with _ | failed
    · simp
    · by_cases htime : c.resetTimeout ≤ now - failed
      · simp [htime]
      · simp [htime]
  · simp

theorem allowRequest_of_halfOpen (h : breaker.state = .halfOpen) :
    allowRequest c breaker now = (breaker, true) := by
  simp [allowRequest, h]

/-- An open breaker turns half open by a request that it lets through. -/
theorem allowRequest_of_opened (c : Config T) (now : T) (h : breaker.state = .opened) :
    ((allowRequest c breaker now).1.state = .halfOpen ∧
        (allowRequest c breaker now).2 = true) ∨
      allowRequest c breaker now = (breaker, false) := by
  unfold allowRequest
  rw [h]
  rcases hlast : breaker.lastFailureTime with _ | failed
  · exact .inr rfl
  · by_cases htime : c.resetTimeout ≤ now - failed
    · simp [htime]
    · simp [htime]

/-- The breaker is half open after a call only if the call was a request: one that found
it so, or one that turned it so. -/
theorem step_halfOpen {call : Call T} (h : (step c breaker call).1.state = .halfOpen) :
    ∃ now, call = .allowRequest now ∧
      (breaker.state = .halfOpen ∨
        breaker.state = .opened ∧ (allowRequest c breaker now).1.state = .halfOpen) := by
  cases call with
  | allowRequest now =>
    refine ⟨now, rfl, ?_⟩
    rcases hstate : breaker.state with _ | _ | _
    · have hsame : (step c breaker (.allowRequest now)).1 = breaker := by
        simp [step, allowRequest, hstate]
      rw [hsame, hstate] at h
      cases h
    · exact .inr ⟨rfl, h⟩
    · exact .inl rfl
  | recordSuccess =>
    by_cases hhalf : breaker.state = .halfOpen
    · simp [step, recordSuccess, hhalf] at h
    · simp [step, recordSuccess, hhalf] at h
  | recordFailure now =>
    rcases hstate : breaker.state with _ | _ | _
    · by_cases hfull : c.failureThreshold ≤ (breaker.failureCount : Int) + 1
      · simp [step, recordFailure, hstate, hfull] at h
      · simp [step, recordFailure, hstate, hfull] at h
    · simp [step, recordFailure, hstate] at h
    · simp [step, recordFailure, hstate] at h

/-! ## Every breaker that calls lead to -/

theorem run_snoc (c : Config T) (calls : List (Call T)) (call : Call T) :
    run c (calls ++ [call]) = (step c (run c calls) call).1 := by
  simp [run, List.foldl_append]

/-- A closed breaker has counted fewer failures than the threshold, and another has the
time of one. -/
structure Sound (c : Config T) (breaker : AsyncCircuitBreaker T) : Prop where
  below : breaker.state = .closed → (breaker.failureCount : Int) < c.failureThreshold
  failed : breaker.state ≠ .closed → breaker.lastFailureTime ≠ none

theorem sound_step (h : Sound c breaker) (call : Call T) : Sound c (step c breaker call).1 := by
  have hpos := c.threshold_pos
  cases call with
  | allowRequest now =>
    rcases hstate : breaker.state with _ | _ | _
    · simpa [step, allowRequest, hstate] using h
    · have hfailed := h.failed (by simp [hstate])
      rcases allowRequest_of_opened c now hstate with ⟨hhalf, -⟩ | hsame
      · refine ⟨fun hclosed => ?_, fun _ => ?_⟩
        · rw [show (step c breaker (.allowRequest now)).1.state = .halfOpen from hhalf] at hclosed
          cases hclosed
        · unfold step allowRequest
          grind
      · simpa [step, hsame] using h
    · simpa [step, allowRequest, hstate] using h
  | recordSuccess =>
    by_cases hhalf : breaker.state = .halfOpen
    · refine ⟨fun _ => ?_, fun hne => ?_⟩
      · simp only [step, recordSuccess, hhalf, if_true]
        omega
      · simp [step, recordSuccess, hhalf] at hne
    · have hcounted : recordSuccess breaker =
          { breaker with successCount := breaker.successCount + 1 } := by
        simp [recordSuccess, hhalf]
      simp only [step, hcounted]
      exact ⟨h.below, h.failed⟩
  | recordFailure now =>
    refine ⟨fun hclosed => ?_, fun _ => ?_⟩
    · unfold step recordFailure at hclosed ⊢
      grind
    · unfold step recordFailure
      grind

theorem sound_run (c : Config T) (calls : List (Call T)) : Sound c (run c calls) := by
  induction calls using List.reverseRecOn with
  | nil =>
    have hpos := c.threshold_pos
    refine ⟨fun _ => ?_, fun hne => ?_⟩
    · simp only [run, List.foldl_nil, initial]
      omega
    · exact absurd rfl hne
  | append_singleton calls call ih =>
    rw [run_snoc]
    exact sound_step ih call

/-- A breaker that is half open was turned so by a request, with no outcome since. -/
theorem exists_probe {calls : List (Call T)} (h : (run c calls).state = .halfOpen) :
    ∃ before now waiting, calls = before ++ .allowRequest now :: waiting ∧
      Probes c before now ∧ ∀ call ∈ waiting, ¬call.IsOutcome := by
  induction calls using List.reverseRecOn with
  | nil => simp [run, initial] at h
  | append_singleton calls call ih =>
    rw [run_snoc] at h
    obtain ⟨now, rfl, hhalf | hprobe⟩ := step_halfOpen h
    · obtain ⟨before, probed, waiting, rfl, hprobe, hwaiting⟩ := ih hhalf
      refine ⟨before, probed, waiting ++ [.allowRequest now], by simp, hprobe, ?_⟩
      intro other hother
      rcases List.mem_append.mp hother with hold | hnew
      · exact hwaiting other hold
      · obtain rfl := List.mem_singleton.mp hnew
        exact id
    · exact ⟨calls, now, [], rfl, hprobe, by simp⟩

/-! ## One probe -/

/-- The state after a probe and further requests. -/
theorem run_probe {before waiting : List (Call T)} (hprobe : Probes c before now)
    (hwaiting : ∀ call ∈ waiting, ¬call.IsOutcome) :
    (run c (before ++ .allowRequest now :: waiting)).state = .halfOpen := by
  induction waiting using List.reverseRecOn with
  | nil =>
    rw [run_snoc]
    exact hprobe.2
  | append_singleton waiting call ih =>
    have hstate := ih (fun other hother => hwaiting other (List.mem_append_left _ hother))
    have hcall := hwaiting call (by simp)
    rw [← List.cons_append, ← List.append_assoc, run_snoc]
    cases call with
    | allowRequest later =>
      simp only [step]
      rw [allowRequest_of_halfOpen hstate]
      exact hstate
    | recordSuccess => exact absurd trivial hcall
    | recordFailure later => exact absurd trivial hcall

/-- A half open breaker lets every request through. -/
theorem admitted_halfOpen {waiting : List (Call T)} (h : breaker.state = .halfOpen)
    (hwaiting : ∀ call ∈ waiting, ¬call.IsOutcome) :
    admitted c breaker waiting = waiting.length := by
  induction waiting with
  | nil => rfl
  | cons call rest ih =>
    cases call with
    | allowRequest later =>
      simp only [admitted, step, allowRequest_of_halfOpen h, Bool.toNat_true, List.length_cons]
      rw [ih (fun other hother => hwaiting other (List.mem_cons_of_mem _ hother))]
      omega
    | recordSuccess => exact absurd trivial (hwaiting _ (List.mem_cons_self ..))
    | recordFailure later => exact absurd trivial (hwaiting _ (List.mem_cons_self ..))

/-- The requests let through from a probe on are that one and all that follow it. -/
theorem admitted_probe {before waiting : List (Call T)} (hprobe : Probes c before now)
    (hwaiting : ∀ call ∈ waiting, ¬call.IsOutcome) :
    admitted c (run c before) (.allowRequest now :: waiting) = waiting.length + 1 := by
  have hallowed : (allowRequest c (run c before) now).2 = true := by
    rcases allowRequest_of_opened c now hprobe.1 with ⟨-, hallowed⟩ | hsame
    · exact hallowed
    · have hhalf := hprobe.2
      rw [hsame, hprobe.1] at hhalf
      cases hhalf
  have hstate : (step c (run c before) (.allowRequest now)).1.state = .halfOpen := hprobe.2
  simp only [admitted]
  rw [admitted_halfOpen hstate hwaiting]
  simp only [step, hallowed, Bool.toNat_true]
  omega

/-- One request probes a half open breaker, in every run in which no client asks while
it is half open, and in no other. -/
theorem oneProbe_iff (c : Config T) (calls : List (Call T)) :
    OneProbe c calls ↔ NobodyElseAsks c calls := by
  constructor
  · intro hone before now rest heq hhalf
    obtain ⟨early, probed, waiting, rfl, hprobe, hwaiting⟩ := exists_probe hhalf
    have hlonger : ∀ call ∈ waiting ++ [.allowRequest now], ¬call.IsOutcome := by
      intro call hcall
      rcases List.mem_append.mp hcall with hold | hnew
      · exact hwaiting call hold
      · obtain rfl := List.mem_singleton.mp hnew
        exact id
    have hcount := hone early probed (waiting ++ [.allowRequest now]) rest (by simp [heq]) hprobe
      hlonger
    rw [admitted_probe hprobe hlonger] at hcount
    simp at hcount
  · intro hnobody before now waiting rest heq hprobe hwaiting
    rw [admitted_probe hprobe hwaiting]
    cases waiting with
    | nil => rfl
    | cons call others =>
      exfalso
      cases call with
      | allowRequest later =>
        refine hnobody (before ++ [.allowRequest now]) later (others ++ rest) (by simp [heq]) ?_
        exact run_probe hprobe (by simp)
      | recordSuccess => exact hwaiting _ (List.mem_cons_self ..) trivial
      | recordFailure later => exact hwaiting _ (List.mem_cons_self ..) trivial

end breaker

/-- Two requests go through a half open breaker. -/
theorem not_oneProbe :
    ¬∀ (c : Config Int) (calls : List (Call Int)), OneProbe c calls := by
  intro h
  have hone := h ⟨1, 30, by decide, by decide⟩
    [.allowRequest 0, .recordFailure 1, .allowRequest 31, .allowRequest 32]
    [.allowRequest 0, .recordFailure 1] 31 [.allowRequest 32] [] rfl ⟨by decide, by decide⟩
    (by simp [Call.IsOutcome])
  exact absurd hone (by decide)

end orchestra.breaker
