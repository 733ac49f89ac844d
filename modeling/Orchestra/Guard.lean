-- The guard against prompt injection (`security/guard.py`): it scans the input of an
-- agent, puts the context in restricted mode when the scan finds an injection, and
-- looks over the output of an agent that is in that mode.
import Orchestra.Agents
import Orchestra.Attenuation

open dicts texts orchestra.events orchestra.nodes orchestra.ucan orchestra.attenuation
open orchestra.agents (getattr)

namespace orchestra.guard

/-! ## The guard -/

/-- The part of an answer of the checker that the guard reads. -/
structure InjectionDetectionResult where
  injectionDetected : Bool
  modelScore : Rat

/-- The answer of the checker may hang on the moment at which it is asked. -/
structure PromptShieldGuard where
  checker : Option (String → Moment → Except Raised InjectionDetectionResult)
  attenuator : CapabilityAttenuator

/-- What a scan before an agent leaves: the context, the event of a context that has
newly entered restricted mode, and the allowed capabilities. -/
structure Scan where
  ctx : Ctx
  events : List (AgentEvent × Bool)
  allowed : List UCANCapability

/-- The context after the answer of the checker. -/
def PromptShieldGuard.restrict (guard : PromptShieldGuard) (ctx : Ctx)
    (detection : InjectionDetectionResult) : Ctx :=
  let scored := guard.attenuator.processRiskScore ctx detection.modelScore
  if detection.injectionDetected then { scored with restrictedMode := true } else scored

def trigger (detection : InjectionDetectionResult) : String :=
  if detection.injectionDetected then "injection_detected" else "risk_score"

/-- `pre_execute_scan`. The event takes no number from the bus. -/
def PromptShieldGuard.preExecuteScan (guard : PromptShieldGuard) (ctx : Ctx) (userInput : String)
    (baseCapabilities : List UCANCapability) : Except Raised Scan :=
  match guard.checker with
  | none => .ok ⟨ctx, [], baseCapabilities⟩
  | some checkInjection =>
    match checkInjection userInput ctx.moment with
    | .error e => .error e
    | .ok detection =>
      let restricted := guard.restrict ctx detection
      let entered := !ctx.restrictedMode && restricted.restrictedMode && ctx.hasBus
      .ok ⟨restricted,
        if entered then
          [(.restrictedModeEntered detection.modelScore detection.injectionDetected
            (trigger detection), false)]
        else [],
        getAllowedCapabilities restricted baseCapabilities⟩

/-- `post_execute_scan` -/
def postExecuteScan (ctx : Ctx) (result : AgentResult) : AgentResult :=
  if !ctx.restrictedMode then result
  else if ["sk-", "password", "key-"].any (contains (lower result.output)) then
    { result with
      output := "[REDACTED] Output blocked due to potential security leak."
      stateUpdates :=
        result.stateUpdates.set "security_violation" (.str "leaked_secret_in_restricted_mode") }
  else result

/-! ## The middleware -/

/-- The last message of the user, among messages of which the last one comes first. -/
def lastOfUser : List Value → Except Raised String
  | [] => .ok ""
  | msg :: rest => do
    let role ← getattr msg "role"
    if role = .str "user" then
      let content ← getattr msg "content"
      pure content.text
    else lastOfUser rest

/-- The text that the middleware scans. -/
def userText : Value → Except Raised String
  | .str text => .ok text
  | .list messages => lastOfUser messages.reverse
  | _ => .ok ""

/-- `make_security_guard_middleware`, around the run of an agent that may see which
capabilities its context has. -/
def securityMiddleware (guard : PromptShieldGuard) (capabilities : Ctx → List UCANCapability)
    (runFunc : List UCANCapability → Value → Ctx → AgentRun) (input : Value) (ctx : Ctx) :
    AgentRun :=
  match userText input with
  | .error e => ⟨[], ctx.restrictedMode, .error e⟩
  | .ok text =>
    match guard.preExecuteScan ctx text (capabilities ctx) with
    | .error e => ⟨[], ctx.restrictedMode, .error e⟩
    | .ok scan =>
      let run := runFunc scan.allowed input scan.ctx
      ⟨scan.events ++ run.events, run.restrictedMode,
        run.result.map (postExecuteScan { scan.ctx with restrictedMode := run.restrictedMode })⟩

/-! ## When a scan restricts -/

/-- The checker finds an injection in the text, or a risk from the threshold on. -/
def Detects (guard : PromptShieldGuard) (text : String) (moment : Moment) : Prop :=
  ∃ checkInjection detection, guard.checker = some checkInjection ∧
    checkInjection text moment = .ok detection ∧
    (detection.injectionDetected = true ∨ guard.attenuator.riskThreshold ≤ detection.modelScore)

theorem restrict_eq_true_iff (guard : PromptShieldGuard) (ctx : Ctx)
    (detection : InjectionDetectionResult) :
    (guard.restrict ctx detection).restrictedMode = true ↔
      ctx.restrictedMode = true ∨ detection.injectionDetected = true ∨
        guard.attenuator.riskThreshold ≤ detection.modelScore := by
  unfold PromptShieldGuard.restrict CapabilityAttenuator.processRiskScore
  rcases hdetected : detection.injectionDetected with _ | _
  · rcases hmode : ctx.restrictedMode with _ | _
    · by_cases hrisk : guard.attenuator.riskThreshold ≤ detection.modelScore
      · simp [hrisk]
      · simp [hrisk, hmode]
    · simp [hmode]
  · simp

/-- After a scan the context is in restricted mode when it was before, or when the scan
detects something. -/
theorem preExecuteScan_restricts_iff {guard : PromptShieldGuard} {ctx : Ctx} {text : String}
    {base : List UCANCapability} {scan : Scan}
    (h : guard.preExecuteScan ctx text base = .ok scan) :
    scan.ctx.restrictedMode = true ↔
      ctx.restrictedMode = true ∨ Detects guard text ctx.moment := by
  unfold PromptShieldGuard.preExecuteScan at h
  unfold Detects
  rcases hchecker : guard.checker with _ | checkInjection
  · rw [hchecker] at h
    cases h
    simp
  · rw [hchecker] at h
    rcases hcheck : checkInjection text ctx.moment with e | detection
    · simp only [hcheck] at h
      cases h
    · simp only [hcheck] at h
      cases h
      rw [restrict_eq_true_iff]
      simp [hcheck]

/-- The middleware leaves a context in restricted mode in it, when the agent does. -/
theorem securityMiddleware_keeps {guard : PromptShieldGuard}
    {capabilities : Ctx → List UCANCapability}
    {runFunc : List UCANCapability → Value → Ctx → AgentRun}
    (hrun : ∀ allowed input ctx, ctx.restrictedMode = true →
      (runFunc allowed input ctx).restrictedMode = true)
    (input : Value) {ctx : Ctx} (hmode : ctx.restrictedMode = true) :
    (securityMiddleware guard capabilities runFunc input ctx).restrictedMode = true := by
  unfold securityMiddleware
  split
  · exact hmode
  · split
    · exact hmode
    · rename_i scan hscan
      apply hrun
      exact (preExecuteScan_restricts_iff hscan).mpr (Or.inl hmode)

end orchestra.guard
