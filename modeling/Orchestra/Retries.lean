-- The retries of a `GuardedAgent` (`security/guardrails.py`): which guard stops an attempt,
-- and whether the agent is run again.
import Orchestra.Guardrails

open programs

namespace orchestra.retries

open orchestra.agents orchestra.guardrails
open Program

/-! ## The guarded agent -/

/-- A guarded agent with guards that answer: at the moment of the input, which is `none`, or
at the moment of an attempt. -/
structure Guarded where
  base : BaseAgent
  inputGuardrails : Option (List (Guard (Option Nat)))
  outputGuardrails : Option (List (Guard (Option Nat)))
  maxRetries : Int

/-- The agent of `Agents.lean`. -/
def Guarded.agent (g : Guarded) : GuardedAgent where
  toBaseAgent := g.base
  inputGuardrails := g.inputGuardrails.map (·.map (·.validator))
  outputGuardrails := g.outputGuardrails.map (·.map (·.validator))
  maxRetries := g.maxRetries

/-- `_get_chain_blocking_action`, of the output guardrails. -/
def Guarded.blockingAction (g : Guarded) : OnFail :=
  agents.blockingAction (((g.outputGuardrails.getD []).map (·.validator)))

/-- The input as its guardrails leave it, or how the run ends before the agent is run. -/
def Guarded.prepare (g : Guarded) (input : Value) : Except (Except Raised AgentResult) Value :=
  match g.inputGuardrails with
  | none => .ok input
  | some chain =>
    match extractInputText input with
    | .error e => .error (.error e)
    | .ok text =>
      match guardrails.run none chain text with
      | .error e => .error (.error e)
      | .ok verdict =>
        if verdict.passed then
          .ok (match verdict.output, input with
            | some text, .str _ => .str text
            | _, input => input)
        else .error (.ok (blockedResult g.base "Input" verdict.violation))

/-- `for attempt in range(1 + self.max_retries)` with `left` attempts left: how often the
agent is run, and what is returned. -/
def Guarded.attempts (g : Guarded) (outcome : Nat → Except Raised AgentResult) (attempt : Nat) :
    Nat → Nat × Except Raised AgentResult
  | 0 => (0, .error ⟨"UnboundLocalError",
      "cannot access local variable 'result' where it is not associated with a value", false⟩)
  | left + 1 =>
    match outcome attempt with
    | .error e => (1, .error e)
    | .ok result =>
      match g.outputGuardrails with
      | none => (1, .ok result)
      | some chain =>
        match guardrails.run (some attempt) chain result.output with
        | .error e => (1, .error e)
        | .ok verdict =>
          if verdict.passed then (1, .ok (result.withOutput verdict.output))
          else if g.blockingAction = .retry ∧ left ≠ 0 then
            let further := g.attempts outcome (attempt + 1) left
            (1 + further.1, further.2)
          else (1, .ok (blockedResult g.base "Output" verdict.violation))

/-- `GuardedAgent.run`. What the agent makes of an input may be another thing with each
attempt. -/
def Guarded.run (g : Guarded) (outcome : Value → Nat → Except Raised AgentResult)
    (input : Value) : Nat × Except Raised AgentResult :=
  match g.prepare input with
  | .error ended => (0, ended)
  | .ok input => g.attempts (outcome input) 0 (1 + g.maxRetries).toNat

/-! ## Against the programs -/

variable {g : Guarded} {ctx : Context}

/-- Attempts that end as the runs of the agent do. -/
theorem path_attempts {outcome : Nat → Except Raised AgentResult} {input : Value}
    (houtcome : ∀ k, ∃ trace, Path (g.base.run input ctx false) trace (.done (outcome k)))
    (attempt left : Nat) :
    ∃ trace, Path (agents.attempts g.agent ctx input left) trace
      (.done (g.attempts outcome attempt left).2) := by
  induction left generalizing attempt with
  | zero => exact ⟨[], .stay _⟩
  | succ left ih =>
    obtain ⟨trace, hrun⟩ := houtcome attempt
    have hbase : g.agent.toBaseAgent = g.base := rfl
    have hguards : g.agent.outputGuardrails = g.outputGuardrails.map (·.map (·.validator)) := rfl
    unfold agents.attempts Guarded.attempts
    rw [hbase, hguards]
    generalize outcome attempt = r at hrun
    rcases r with e | result
    · exact ⟨trace, hrun.andFail _⟩
    rcases hchain : g.outputGuardrails with _ | chain
    · exact ⟨trace ++ [], hrun.andThen (.stay _)⟩
    obtain ⟨asked, hasked⟩ := path_runChain (some attempt) chain result.output []
    have haction : agents.blockingAction (chain.map (·.validator)) = g.blockingAction := by
      simp [Guarded.blockingAction, hchain]
    simp only [Option.map_some, haction, guardrails.run]
    generalize runFrom (some attempt) chain result.output [] = r at hasked
    rcases r with e | verdict
    · exact ⟨trace ++ asked, hrun.andThen (hasked.andFail _)⟩
    by_cases hpassed : verdict.passed = true
    · refine ⟨trace ++ (asked ++ []), hrun.andThen (hasked.andThen ?_)⟩
      simp only [if_pos hpassed]
      exact .stay _
    by_cases hretry : g.blockingAction = .retry ∧ left ≠ 0
    · obtain ⟨rest, hrest⟩ := ih (attempt + 1)
      refine ⟨trace ++ (asked ++ rest), hrun.andThen (hasked.andThen ?_)⟩
      simp only [if_neg hpassed, if_pos hretry]
      exact hrest
    · refine ⟨trace ++ (asked ++ []), hrun.andThen (hasked.andThen ?_)⟩
      simp only [if_neg hpassed, if_neg hretry]
      exact .stay _

/-- The run is one of the program of `Agents.lean`. -/
theorem path_run {outcome : Value → Nat → Except Raised AgentResult}
    (houtcome : ∀ v k, ∃ trace, Path (g.base.run v ctx false) trace (.done (outcome v k)))
    (input : Value) :
    ∃ trace, Path (g.agent.run input ctx) trace (.done (g.run outcome input).2) := by
  have hguards : g.agent.inputGuardrails = g.inputGuardrails.map (·.map (·.validator)) := rfl
  have hretries : g.agent.maxRetries = g.maxRetries := rfl
  unfold GuardedAgent.run Guarded.run Guarded.prepare
  rw [hguards, hretries]
  rcases g.inputGuardrails with _ | chain
  · exact path_attempts (houtcome input) 0 _
  dsimp only [Option.map_some]
  rcases extractInputText input with e | text
  · exact ⟨[], .stay _⟩
  obtain ⟨asked, hasked⟩ := path_runChain none chain text []
  show ∃ trace, Path (runChain (chain.map (·.validator)) text [] >>= _) trace _
  simp only [guardrails.run]
  generalize runFrom none chain text [] = r at hasked
  rcases r with e | verdict
  · exact ⟨asked, hasked.andFail _⟩
  by_cases hpassed : verdict.passed = true
  · simp only [if_pos hpassed]
    obtain ⟨trace, htrace⟩ := path_attempts (houtcome _) 0 (1 + g.maxRetries).toNat
    refine ⟨asked ++ trace, hasked.andThen ?_⟩
    rw [if_pos hpassed]
    exact htrace
  · refine ⟨asked ++ [], hasked.andThen ?_⟩
    simp only [if_neg hpassed]
    exact .stay _

/-! ## Which guard stops an attempt -/

/-- The guard that stops the chain. -/
def stoppedBy (m : Option Nat) : List (Guard (Option Nat)) → String → Option (Guard (Option Nat))
  | [], _ => none
  | g :: rest, text =>
    match g.turn m text with
    | .goes text' _ => stoppedBy m rest text'
    | .stops _ _ => some g
    | .raises _ => none

/-- What the guard is to do that stops the chain on the text of an attempt. -/
def Guarded.stops (g : Guarded) (outcome : Nat → Except Raised AgentResult) (attempt : Nat) :
    Option OnFail :=
  match outcome attempt, g.outputGuardrails with
  | .ok result, some chain => (stoppedBy (some attempt) chain result.output).map (·.onFail)
  | _, _ => none

/-- The same for a run, which may end before its first attempt. -/
def Guarded.stopsOf (g : Guarded) (outcome : Value → Nat → Except Raised AgentResult)
    (input : Value) (attempt : Nat) : Option OnFail :=
  match g.prepare input with
  | .error _ => none
  | .ok input => g.stops (outcome input) attempt

/-- How often an agent is run whose attempts are stopped so: once more after an attempt that
a guard with RETRY stops, as long as retries are left, not after one that a guard with BLOCK
stops, and at most `max_retries + 1` times. -/
structure RetriesWhenAsked (maxRetries : Int) (stops : Nat → Option OnFail) (runs : Nat) :
    Prop where
  again : ∀ attempt < runs, stops attempt = some .retry → attempt < maxRetries →
    attempt + 1 < runs
  blocked : ∀ attempt < runs, stops attempt = some .block → runs = attempt + 1
  bound : runs ≤ maxRetries + 1

/-- The chain of the guards does what the first of them that does more than log is to do. If
this is to retry, no guard that blocks may stop an attempt before the last one; if it is
another thing, no guard that retries may stop the first attempt. -/
def ActsAsFirst (maxRetries : Int) (first : OnFail) (stops : Nat → Option OnFail) : Prop :=
  -1 ≤ maxRetries ∧
    if first = .retry then
      ∀ attempt : Nat, attempt < maxRetries → (∀ earlier < attempt, stops earlier ≠ none) →
        stops attempt ≠ some .block
    else 0 < maxRetries → stops 0 ≠ some .retry

variable {m : Option Nat} {chain : List (Guard (Option Nat))} {text : String}

/-- A chain ends without passing just when a guard stops it. -/
theorem passed_iff_stoppedBy {violations : List GuardrailViolation} {verdict : GuardrailResult}
    (h : runFrom m chain text violations = .ok verdict) :
    verdict.passed = true ↔ stoppedBy m chain text = none := by
  induction chain generalizing text violations with
  | nil =>
    cases h
    simp [stoppedBy]
  | cons g rest ih =>
    unfold runFrom at h
    unfold stoppedBy
    rcases hturn : g.turn m text with ⟨text', found⟩ | ⟨violation, found⟩ | e
    · rw [hturn] at h
      exact ih h
    · rw [hturn] at h
      cases h
      simp
    · rw [hturn] at h
      cases h

theorem stoppedBy_of_raises {violations : List GuardrailViolation} {e : Raised}
    (h : runFrom m chain text violations = .error e) : stoppedBy m chain text = none := by
  induction chain generalizing text violations with
  | nil => cases h
  | cons g rest ih =>
    unfold runFrom at h
    unfold stoppedBy
    rcases hturn : g.turn m text with ⟨text', found⟩ | ⟨violation, found⟩ | e
    · rw [hturn] at h
      exact ih h
    · rw [hturn] at h
      cases h
    · rfl

/-! ## How often the agent is run -/

/-- One attempt: the agent is run again just when a guard stopped the attempt, the first guard
is to retry, and attempts are left. -/
theorem attempts_succ (g : Guarded) (outcome : Nat → Except Raised AgentResult)
    (attempt left : Nat) :
    (g.attempts outcome attempt (left + 1)).1 =
      if g.stops outcome attempt ≠ none ∧ g.blockingAction = .retry ∧ left ≠ 0 then
        1 + (g.attempts outcome (attempt + 1) left).1
      else 1 := by
  rw [Guarded.attempts]
  unfold Guarded.stops
  rcases outcome attempt with e | result
  · simp
  rcases g.outputGuardrails with _ | chain
  · simp
  dsimp only
  rcases hverdict : guardrails.run (some attempt) chain result.output with e | verdict
  · simp [stoppedBy_of_raises hverdict]
  have hstopped := passed_iff_stoppedBy hverdict
  by_cases hpassed : verdict.passed = true
  · simp [hpassed, hstopped.mp hpassed]
  · have hsome : stoppedBy (some attempt) chain result.output ≠ none :=
      fun hnone => hpassed (hstopped.mpr hnone)
    simp only [hpassed, Bool.false_eq_true, if_false, ne_eq, Option.map_eq_none_iff, hsome,
      not_false_eq_true, true_and]
    split
    · rfl
    · rfl

/-- The runs from an attempt on: each but the last one was stopped, and the last one was not
unless no attempt is left. -/
structure Attempted (stops : Nat → Option OnFail) (attempt left runs : Nat) : Prop where
  pos : 0 < runs
  le : runs ≤ left
  stopped : ∀ k, k + 1 < runs → stops (attempt + k) ≠ none
  ended : ∀ k, k + 1 = runs → runs < left → stops (attempt + k) = none

variable {outcome : Nat → Except Raised AgentResult}

theorem attempted_of_retry (hfirst : g.blockingAction = .retry) (attempt left : Nat) :
    Attempted (g.stops outcome) attempt (left + 1)
      (g.attempts outcome attempt (left + 1)).1 := by
  induction left generalizing attempt with
  | zero =>
    rw [attempts_succ, if_neg (by simp)]
    exact ⟨by omega, by omega, fun k hk => by omega, fun k hk hlt => by omega⟩
  | succ left ih =>
    rw [attempts_succ]
    split
    · rename_i hstopped
      obtain ⟨hpos, hle, hall, hended⟩ := ih (attempt + 1)
      refine ⟨by omega, by omega, ?_, ?_⟩
      · intro k hk
        rcases k with _ | k
        · exact hstopped.1
        · have hlater := hall k (by omega)
          rwa [Nat.add_assoc, Nat.add_comm 1 k] at hlater
      · intro k hk hlt
        rcases k with _ | k
        · omega
        · have hlast := hended k (by omega) (by omega)
          rwa [Nat.add_assoc, Nat.add_comm 1 k] at hlast
    · rename_i hstop
      refine ⟨by omega, by omega, fun k hk => by omega, fun k hk hlt => ?_⟩
      obtain rfl : k = 0 := by omega
      by_contra hstopped
      exact hstop ⟨hstopped, hfirst, by omega⟩

theorem attempts_of_other (hfirst : g.blockingAction ≠ .retry) (attempt left : Nat) :
    (g.attempts outcome attempt (left + 1)).1 = 1 := by
  rw [attempts_succ, if_neg fun h => hfirst h.2.1]

variable {stops : Nat → Option OnFail} {maxRetries : Int} {runs : Nat}

/-- No attempt at all. -/
theorem retriesWhenAsked_zero_iff {first : OnFail}
    (hnone : -1 ≤ maxRetries → (∀ k, stops k = none) ∨ maxRetries = -1) :
    RetriesWhenAsked maxRetries stops 0 ↔ ActsAsFirst maxRetries first stops := by
  constructor
  · intro h
    have hbound := h.bound
    have hleast : -1 ≤ maxRetries := by omega
    refine ⟨hleast, ?_⟩
    rcases hnone hleast with hall | rfl
    · split
      · intro attempt _ _
        simp [hall]
      · intro _
        simp [hall]
    · split
      · intro attempt hattempt
        omega
      · intro hpos
        omega
  · intro h
    have hleast := h.1
    exact ⟨nofun, nofun, by omega⟩

theorem retriesWhenAsked_iff_of_retry (hmax : 0 ≤ maxRetries)
    (h : Attempted stops 0 (1 + maxRetries).toNat runs) :
    RetriesWhenAsked maxRetries stops runs ↔ ActsAsFirst maxRetries .retry stops := by
  have hle := h.le
  have hstopped : ∀ k, k + 1 < runs → stops k ≠ none := by simpa using h.stopped
  have hended : ∀ k, k + 1 = runs → runs < (1 + maxRetries).toNat → stops k = none := by
    simpa using h.ended
  unfold ActsAsFirst
  rw [if_pos rfl]
  constructor
  · intro hretries
    refine ⟨by omega, fun attempt hattempt hearlier hblock => ?_⟩
    have hrun : attempt < runs := by
      by_contra hnot
      have hpos := h.pos
      exact hearlier (runs - 1) (by omega) (hended (runs - 1) (by omega) (by omega))
    have hlast := hretries.blocked attempt hrun hblock
    rw [hended attempt hlast.symm (by omega)] at hblock
    cases hblock
  · rintro ⟨-, hacts⟩
    refine ⟨fun attempt hrun hretry hattempt => ?_, fun attempt hrun hblock => ?_, by omega⟩
    · by_contra hnot
      rw [hended attempt (by omega) (by omega)] at hretry
      cases hretry
    · by_contra hnot
      exact hacts attempt (by omega) (fun earlier hearlier => hstopped earlier (by omega)) hblock

theorem retriesWhenAsked_one_iff {first : OnFail} (hmax : 0 ≤ maxRetries)
    (hfirst : first ≠ .retry) :
    RetriesWhenAsked maxRetries stops 1 ↔ ActsAsFirst maxRetries first stops := by
  unfold ActsAsFirst
  rw [if_neg hfirst]
  constructor
  · intro h
    refine ⟨by omega, fun hpos hretry => ?_⟩
    have hagain := h.again 0 (by omega) hretry hpos
    omega
  · rintro ⟨-, hacts⟩
    refine ⟨fun attempt hrun hretry hattempt => ?_, fun attempt hrun _ => by omega, by omega⟩
    obtain rfl : attempt = 0 := by omega
    exact absurd hretry (hacts (by simpa using hattempt))

/-- Whatever the guards and the attempts are, the agent is run again when it should be just
when the guards that stop its attempts agree with the first guard of the chain. -/
theorem retriesWhenAsked_iff (g : Guarded) (outcome : Value → Nat → Except Raised AgentResult)
    (input : Value) :
    RetriesWhenAsked g.maxRetries (g.stopsOf outcome input) (g.run outcome input).1 ↔
      ActsAsFirst g.maxRetries g.blockingAction (g.stopsOf outcome input) := by
  unfold Guarded.run Guarded.stopsOf
  rcases g.prepare input with ended | input
  · exact retriesWhenAsked_zero_iff fun _ => .inl fun _ => rfl
  dsimp only
  by_cases hmax : 0 ≤ g.maxRetries
  · obtain ⟨n, hn⟩ : ∃ n, (1 + g.maxRetries).toNat = n + 1 := ⟨g.maxRetries.toNat, by omega⟩
    by_cases hfirst : g.blockingAction = .retry
    · rw [hfirst]
      refine retriesWhenAsked_iff_of_retry hmax ?_
      rw [hn]
      exact attempted_of_retry hfirst 0 n
    · rw [hn, attempts_of_other hfirst]
      exact retriesWhenAsked_one_iff hmax hfirst
  · have hn : (1 + g.maxRetries).toNat = 0 := by omega
    rw [hn]
    exact retriesWhenAsked_zero_iff fun hleast => .inr (by omega)

/-- A guard with BLOCK that is content stands before one with RETRY that is not. -/
def contentThenStrict : Guarded where
  base := ⟨"a", none, "p", [], none, 1, 0, none⟩
  inputGuardrails := none
  outputGuardrails := some [(⟨100, .block, by decide⟩ : MaxLengthGuardrail).guard,
    (⟨literal "ok", true, .retry⟩ : RegexGuardrail).guard]
  maxRetries := 2

/-- The agent is not run again, although it should be. -/
theorem a_content_guard_stops_retries :
    ¬ ∀ (g : Guarded) (outcome : Value → Nat → Except Raised AgentResult) (input : Value),
      RetriesWhenAsked g.maxRetries (g.stopsOf outcome input) (g.run outcome input).1 := by
  intro h
  have hagain := (h contentThenStrict (fun _ _ => .ok (blockedResult contentThenStrict.base "no"
    none)) .none).again 0 (by decide) rfl (by decide)
  exact absurd hagain (by decide)

end orchestra.retries
