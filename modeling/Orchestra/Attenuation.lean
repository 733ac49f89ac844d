-- Restricted mode (`security/attenuation.py`): the capabilities that are left to
-- an agent once an injection was detected.
import Orchestra.Nodes
import Orchestra.Wire

open texts orchestra.nodes orchestra.ucan orchestra.wire

namespace orchestra.attenuation

/-! ## The attenuator -/

structure CapabilityAttenuator where
  riskThreshold : Rat

/-- `process_risk_score` -/
def CapabilityAttenuator.processRiskScore (attenuator : CapabilityAttenuator) (ctx : Ctx)
    (score : Rat) : Ctx :=
  if score ≥ attenuator.riskThreshold ∧ ctx.restrictedMode = false then
    { ctx with restrictedMode := true }
  else ctx

/-- The capabilities that the loop of `get_allowed_capabilities` passes over. -/
def blocks (cap : UCANCapability) : Bool :=
  contains cap.resource "secrets" || (contains cap.ability "delete" || contains cap.ability "write")

/-- `get_allowed_capabilities` -/
def getAllowedCapabilities (ctx : Ctx) (baseCapabilities : List UCANCapability) :
    List UCANCapability :=
  if !ctx.restrictedMode then baseCapabilities
  else baseCapabilities.filter (fun cap => !blocks cap)

/-- `attenuate_token` -/
def attenuateToken (ctx : Ctx) (manager : UCANManager) (parentToken audienceDid : String)
    (requestedCaps : List UCANCapability) (now : Int) (nonce : String) : String :=
  manager.delegate parentToken audienceDid (getAllowedCapabilities ctx requestedCaps) 300 now nonce

theorem processRiskScore_keeps (attenuator : CapabilityAttenuator) {ctx : Ctx}
    (h : ctx.restrictedMode = true) (score : Rat) :
    attenuator.processRiskScore ctx score = ctx := by
  simp [CapabilityAttenuator.processRiskScore, h]

theorem mem_getAllowedCapabilities {ctx : Ctx} (h : ctx.restrictedMode = true)
    (base : List UCANCapability) (cap : UCANCapability) :
    cap ∈ getAllowedCapabilities ctx base ↔ cap ∈ base ∧ blocks cap = false := by
  simp [getAllowedCapabilities, h]

/-- The token of a sub-agent grants what is left of the capabilities asked for. -/
theorem attenuateToken_grants (ctx : Ctx) (manager : UCANManager)
    (parentToken audienceDid : String) (requestedCaps : List UCANCapability) (now : Int)
    (nonce : String) (required : UCANCapability) :
    ∃ payload, attenuateToken ctx manager parentToken audienceDid requestedCaps now nonce =
        manager.encode payload ∧
      checkCapability payload required =
        checkCapability (payloadOf (getAllowedCapabilities ctx requestedCaps)) required := by
  have hminted := @Minted.delegated manager (getAllowedCapabilities ctx requestedCaps) parentToken
    audienceDid 300 now nonce
  refine ⟨_, encode_of_minted hminted, ?_⟩
  unfold checkCapability
  rw [att_of_minted hminted]
  rfl

/-! ## What is denied -/

/-- What restricted mode is there to deny. -/
def Sensitive (required : UCANCapability) : Prop :=
  contains required.resource "secrets" = true ∨ contains required.ability "write" = true ∨
    contains required.ability "delete" = true

/-- A capability that grants more than its own text says. -/
def isPattern (cap : UCANCapability) : Bool := cap.ability = "*" || endsWith cap.resource "/*"

theorem blocks_eq_true_iff (cap : UCANCapability) : blocks cap = true ↔ Sensitive cap := by
  simp only [blocks, Sensitive, Bool.or_eq_true]
  tauto

/-- A capability that is no pattern grants itself only. -/
theorem eq_of_grants {cap required : UCANCapability} (hplain : isPattern cap = false)
    (h : cap.attenuation.grants required = true) :
    cap.resource = required.resource ∧ cap.ability = required.ability := by
  simp only [isPattern, Bool.or_eq_false_iff, decide_eq_false_iff_not] at hplain
  obtain ⟨hstands, hability⟩ := (attenuation_grants_iff cap required).mp h
  refine ⟨?_, hability.resolve_right hplain.1⟩
  rcases hstands with heq | ⟨ns, hns, -⟩
  · exact heq
  · rw [(ns_of_wildcard hns).1] at hplain
    cases hplain.2

/-- A pattern grants something sensitive: a write for any ability, or the secrets
of its namespace. -/
theorem grants_sensitive_of_isPattern {cap : UCANCapability} (h : isPattern cap = true) :
    ∃ required, Sensitive required ∧ cap.attenuation.grants required = true := by
  simp only [isPattern, Bool.or_eq_true, decide_eq_true_eq] at h
  rcases h with hany | hwild
  · have hwrite : contains "write" "write" = true := by decide
    refine ⟨⟨cap.resource, "write", none⟩, Or.inr (Or.inl hwrite), ?_⟩
    rw [attenuation_grants_iff]
    exact ⟨stands_self _, Or.inr hany⟩
  · obtain ⟨ns, hns⟩ := (endsWith_iff _ _).mp hwild
    refine ⟨⟨ns ++ "/" ++ "secrets", cap.ability, none⟩, Or.inl (contains_append _ _), ?_⟩
    rw [attenuation_grants_iff]
    have hwithin : startsWith (ns ++ "/" ++ "secrets") (ns ++ "/") = true := by
      rw [startsWith_iff, String.toList_append (s := ns ++ "/")]
      exact List.prefix_append ..
    exact ⟨Or.inr ⟨ns, hns, hwithin⟩, Or.inl rfl⟩

/-- Restricted mode denies everything sensitive just when each capability that it
leaves is no pattern. -/
theorem restricted_mode_denies_iff (ctx : Ctx) (hrestricted : ctx.restrictedMode = true)
    (baseCapabilities : List UCANCapability) :
    (∀ required, Sensitive required →
      checkCapability (payloadOf (getAllowedCapabilities ctx baseCapabilities)) required = false) ↔
    ∀ cap ∈ baseCapabilities, blocks cap = true ∨ isPattern cap = false := by
  constructor
  · intro hdenies cap hcap
    by_contra hnot
    rw [not_or, Bool.not_eq_true, Bool.not_eq_false] at hnot
    obtain ⟨required, hsensitive, hgrants⟩ := grants_sensitive_of_isPattern hnot.2
    have hdenied := hdenies required hsensitive
    have hleft := (mem_getAllowedCapabilities hrestricted _ _).mpr ⟨hcap, hnot.1⟩
    have hgranted := (checkCapability_payloadOf _ required).mpr ⟨cap, hleft, hgrants⟩
    rw [hdenied] at hgranted
    cases hgranted
  · intro hplain required hsensitive
    by_contra hgranted
    rw [Bool.not_eq_false, checkCapability_payloadOf] at hgranted
    obtain ⟨cap, hleft, hgrants⟩ := hgranted
    obtain ⟨hcap, hpass⟩ := (mem_getAllowedCapabilities hrestricted _ _).mp hleft
    have hnone : isPattern cap = false := (hplain cap hcap).resolve_left (by simp [hpass])
    obtain ⟨hresource, hability⟩ := eq_of_grants hnone hgrants
    have hblocked : blocks cap = true := by
      rw [blocks_eq_true_iff]
      simpa [Sensitive, hresource, hability] using hsensitive
    rw [hpass] at hblocked
    cases hblocked

/-- A context in restricted mode. -/
def restrictedCtx : Ctx := ⟨"run", "", 0, .empty, true, [], true, .empty, [], ⟨[], none⟩⟩

def secretTool : UCANCapability := ⟨"orchestra:tools/secrets", "tool/invoke", none⟩

/-- A capability for one tool leaves the secrets alone. -/
theorem a_plain_tool_denies_secrets :
    checkCapability (payloadOf (getAllowedCapabilities restrictedCtx
      [⟨"orchestra:tools/search", "tool/invoke", none⟩])) secretTool = false :=
  (restricted_mode_denies_iff restrictedCtx rfl
    [⟨"orchestra:tools/search", "tool/invoke", none⟩]).mpr (by decide) secretTool
    (Or.inl (by decide))

/-- A capability for all tools still grants the secrets among them. -/
theorem a_wildcard_grants_secrets :
    restrictedCtx.restrictedMode = true ∧ contains secretTool.resource "secrets" = true ∧
      ¬ checkCapability (payloadOf (getAllowedCapabilities restrictedCtx
        [⟨"orchestra:tools/*", "tool/invoke", none⟩])) secretTool = false := by
  decide

end orchestra.attenuation
