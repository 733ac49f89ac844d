-- The tokens of `identity/types.py` and `identity/ucan.py`: capabilities, the
-- payload of a token, how one is issued, and what a payload grants.
import Orchestra.Lib.Text
import Orchestra.Values

open texts

namespace orchestra.ucan

/-! ## Capabilities and tokens -/

/-- `max_calls` is `None` for a capability without a limit. -/
structure UCANCapability where
  resource : String
  ability : String
  maxCalls : Option Int
deriving DecidableEq, Repr

structure UCANToken where
  raw : String
  issuerDid : String
  audienceDid : String
  capabilities : List UCANCapability
  notBefore : Int
  expiresAt : Int
  nonce : String
  proofs : List String
deriving DecidableEq, Repr

/-- `is_expired`, asked at the time `now`. -/
def UCANToken.isExpired (token : UCANToken) (now : Rat) : Bool := (token.expiresAt : Rat) < now

/-! ## Payloads -/

/-- An entry of `att`. Its keys are `with` and `can`. -/
structure Attenuation where
  resource : Option String
  ability : Option String
deriving DecidableEq, Repr

/-- The claims of a token. A claim that the token lacks is `none`. -/
structure Payload where
  iss : Option String
  aud : Option String
  nbf : Option Int
  exp : Option Int
  att : List Attenuation
  prf : List String
  nnc : Option String
deriving DecidableEq, Repr

/-- `{"with": cap.resource, "can": cap.ability}`. A call limit is not written. -/
def UCANCapability.attenuation (cap : UCANCapability) : Attenuation :=
  ⟨some cap.resource, some cap.ability⟩

structure UCANManager where
  issuerDid : String
  encode : Payload → String

/-- `issue`, at the time `now` and with a fresh nonce. -/
def UCANManager.issue (manager : UCANManager) (audienceDid : String)
    (capabilities : List UCANCapability) (ttlSeconds : Int) (proofs : List String)
    (notBefore : Option Int) (now : Int) (nonce : String) : String :=
  manager.encode {
    iss := some manager.issuerDid
    aud := some audienceDid
    nbf := some (match notBefore with
      | some n => if n ≠ 0 then n else now - 60
      | none => now - 60)
    exp := some (now + ttlSeconds)
    att := capabilities.map (·.attenuation)
    prf := proofs
    nnc := some nonce }

/-- `delegate` -/
def UCANManager.delegate (manager : UCANManager) (parentToken audienceDid : String)
    (capabilities : List UCANCapability) (ttlSeconds : Int) (now : Int) (nonce : String) : String :=
  manager.issue audienceDid capabilities ttlSeconds [parentToken] none now nonce

/-! ## What a payload grants -/

/-- `resource_match` of `check_capability`: the resource itself, or a wildcard
over its namespace. -/
def resourceMatch (granted required : String) : Bool :=
  if granted = required then true
  else if endsWith granted "/*" then startsWith required (dropEnd granted 2 ++ "/")
  else false

/-- One turn of the loop of `check_capability`. -/
def Attenuation.grants (entry : Attenuation) (required : UCANCapability) : Bool :=
  let grantedAbility := entry.ability.getD ""
  let abilityMatch := grantedAbility = required.ability || grantedAbility = "*"
  resourceMatch (entry.resource.getD "") required.resource && abilityMatch

/-- `check_capability` -/
def checkCapability (payload : Payload) (required : UCANCapability) : Bool :=
  payload.att.any (·.grants required)

/-- The payload of a token with these capabilities, and nothing else in it. -/
def payloadOf (capabilities : List UCANCapability) : Payload :=
  ⟨none, none, none, none, capabilities.map (·.attenuation), [], none⟩

/-! ## The language of a resource -/

/-- The resources that a granted resource stands for: itself, and for a
`namespace/*` all that lies in the namespace. -/
def Stands (granted resource : String) : Prop :=
  granted = resource ∨ ∃ ns, granted = ns ++ "/*" ∧ startsWith resource (ns ++ "/") = true

theorem stands_self (resource : String) : Stands resource resource := Or.inl rfl

theorem ns_of_wildcard {granted ns : String} (h : granted = ns ++ "/*") :
    endsWith granted "/*" = true ∧ dropEnd granted 2 = ns := by
  refine ⟨(endsWith_iff _ _).mpr ⟨ns, h⟩, ?_⟩
  rw [h]
  exact dropEnd_append ns "/*"

/-- A wildcard that stands for another wildcard stands for all that this one
stands for. So containment is a question about one resource only. -/
theorem stands_trans {r s t : String} (hrs : Stands r s) (hst : Stands s t) : Stands r t := by
  rcases hrs with rfl | ⟨n, rfl, hn⟩
  · exact hst
  · rcases hst with rfl | ⟨m, rfl, hm⟩
    · exact Or.inr ⟨n, rfl, hn⟩
    · refine Or.inr ⟨n, rfl, startsWith_trans hm ?_⟩
      -- The `*` of the inner wildcard cannot be the `/` that ends the outer one.
      apply startsWith_of_push (a := '*') (b := '/') (by decide)
      have hcut : m ++ "/" ++ ('*').toString = m ++ "/*" := by
        rw [String.append_assoc]
        rfl
      rw [hcut]
      exact hn

theorem resourceMatch_iff (granted required : String) :
    resourceMatch granted required = true ↔ Stands granted required := by
  unfold resourceMatch Stands
  by_cases heq : granted = required
  · simp [heq]
  simp only [heq, if_false, false_or]
  by_cases hwild : endsWith granted "/*" = true
  · obtain ⟨ns, hns⟩ := (endsWith_iff _ _).mp hwild
    have hcut := (ns_of_wildcard hns).2
    simp only [hwild, if_true, hcut]
    constructor
    · exact fun h => ⟨ns, hns, h⟩
    · rintro ⟨m, hm, h⟩
      rwa [← (ns_of_wildcard hm).2, hcut] at h
  · simp only [hwild]
    constructor
    · simp
    · rintro ⟨m, hm, -⟩
      exact absurd (ns_of_wildcard hm).1 hwild

theorem attenuation_grants_iff (cap required : UCANCapability) :
    cap.attenuation.grants required = true ↔
      Stands cap.resource required.resource ∧
        (cap.ability = required.ability ∨ cap.ability = "*") := by
  have hgrants : cap.attenuation.grants required =
      (resourceMatch cap.resource required.resource &&
        (decide (cap.ability = required.ability) || decide (cap.ability = "*"))) := rfl
  rw [hgrants, ← resourceMatch_iff]
  simp

theorem checkCapability_payloadOf (capabilities : List UCANCapability)
    (required : UCANCapability) :
    checkCapability (payloadOf capabilities) required = true ↔
      ∃ cap ∈ capabilities, cap.attenuation.grants required = true := by
  simp [checkCapability, payloadOf]

end orchestra.ucan
