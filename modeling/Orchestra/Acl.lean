-- The access control of `security/acl.py`: which capabilities a token may hand
-- on (`validate_narrowing`), and which tools an agent may use (`ToolACL`).
import Orchestra.Ucan

open texts orchestra.ucan

namespace orchestra.acl

/-! ## Narrowing -/

/-- The resource that `validate_narrowing` lets every capability fall under. -/
def toolsWildcard : String := "orchestra:tools/*"

/-- `ability_ok` of `validate_narrowing` -/
def abilityOk (parent child : UCANCapability) : Bool :=
  parent.ability = "*" || parent.ability = child.ability

/-- `resource_ok` of `validate_narrowing` -/
def resourceOk (parent child : UCANCapability) : Bool :=
  if parent.resource = child.resource || parent.resource = toolsWildcard then true
  else if endsWith parent.resource "/*" then
    let parentNs := dropEnd parent.resource 2
    child.resource = parentNs || startsWith child.resource (parentNs ++ "/")
  else false

/-- The test of one pair in the inner loop. -/
def covers (parent child : UCANCapability) : Bool := abilityOk parent child && resourceOk parent child

/-- `validate_narrowing` -/
def validateNarrowing (parentCaps childCaps : List UCANCapability) : Bool :=
  childCaps.all (fun child => parentCaps.any (fun parent => covers parent child))

theorem validateNarrowing_iff (parentCaps childCaps : List UCANCapability) :
    validateNarrowing parentCaps childCaps = true ↔
      ∀ child ∈ childCaps, ∃ parent ∈ parentCaps, covers parent child = true := by
  simp [validateNarrowing]

/-! ## The list -/

structure ToolACL where
  allowedTools : List String
  deniedTools : List String
  allowPatterns : List String
  denyPatterns : List String
  allowAll : Bool
deriving DecidableEq, Repr

namespace ToolACL

/-- `ToolACL.allow_list(tools)` -/
def allowList (tools : List String) : ToolACL := ⟨tools, [], [], [], false⟩

/-- `ToolACL.open()` -/
def openAll : ToolACL := ⟨[], [], [], [], true⟩

/-- `_check_acl_only` -/
def checkAclOnly (acl : ToolACL) (toolName : String) : Bool :=
  acl.allowAll || acl.allowedTools.contains toolName ||
    acl.allowPatterns.any (fnmatch toolName ·)

/-- The explicit denials, which win over everything else. -/
def denies (acl : ToolACL) (toolName : String) : Bool :=
  acl.deniedTools.contains toolName || acl.denyPatterns.any (fnmatch toolName ·)

end ToolACL

inductive AclError
  | agentRevoked (did : String)
  | capabilityDenied (message : String)
deriving DecidableEq, Repr

/-- What the list asks of the machine it runs on: the reader of JSON texts,
which fails on any other text, and the time. -/
structure Host where
  loads : String → Option Value
  now : Rat

/-! ## Proofs -/

def capabilityOf : Value → Option UCANCapability
  | .dict c =>
    match c.lookup "resource", c.lookup "ability" with
    | some (.str resource), some (.str ability) =>
      some ⟨resource, ability, match c.lookup "max_calls" with
        | some (.int n) => some n
        | _ => none⟩
    | _, _ => none
  | _ => none

/-- `data.get(key, "")` -/
def textAt (data : List (String × Value)) (key : String) : String :=
  match data.lookup key with
  | some v => v.text
  | none => ""

/-- `data.get(key, 0)` -/
def intAt (data : List (String × Value)) (key : String) : Int :=
  match data.lookup key with
  | some (.int n) => n
  | _ => 0

/-- `tuple(data.get(key, []))`. It fails on what cannot be iterated over. -/
def itemsAt (data : List (String × Value)) (key : String) : Option (List Value) :=
  match ((data.lookup key).getD (.list [])).iterate with
  | .ok items => some items
  | .error _ => none

/-- `_parse_proof`. A text that is no JSON dict with capabilities, like a signed
token, is opaque. -/
def parseProof (host : Host) (raw : String) : Option UCANToken :=
  match host.loads raw with
  | some (.dict data) =>
    if (data.lookup "capabilities").isSome then do
      let capabilities ← (← itemsAt data "capabilities").mapM capabilityOf
      let proofs ← itemsAt data "proofs"
      some {
        raw
        issuerDid := textAt data "issuer_did"
        audienceDid := textAt data "audience_did"
        capabilities
        notBefore := intAt data "not_before"
        expiresAt := intAt data "expires_at"
        nonce := textAt data "nonce"
        proofs := proofs.map (·.text) }
    else none
  | _ => none

def wideningMessage (depth : Nat) : String :=
  "Delegation chain widening detected at depth " ++ toString depth ++
    ": child capabilities are not a subset of parent capabilities. " ++
    "This may indicate a privilege escalation attempt (DD-4)."

/-- The loop over the pairs of the chain, from the pair number `i` on. -/
def validatePairs : Nat → List UCANToken → Except AclError Unit
  | i, parent :: child :: rest =>
    if validateNarrowing parent.capabilities child.capabilities then
      validatePairs (i + 1) (child :: rest)
    else .error (.capabilityDenied (wideningMessage (i + 1)))
  | _, _ => .ok ()

/-- `full_chain`: the proofs that could be read, and the token itself. -/
def fullChain (host : Host) (ucan : UCANToken) : List UCANToken :=
  ucan.proofs.filterMap (parseProof host) ++ [ucan]

/-- `_validate_proof_chain` -/
def validateProofChain (host : Host) (ucan : UCANToken) : Except AclError Unit :=
  validatePairs 0 (fullChain host ucan)

/-! ## Authorization -/

/-- A capability that lets its holder use the tool: the tool itself or the
explicit wildcard, never a bare parent scope. -/
def invokes (toolName : String) (cap : UCANCapability) : Bool :=
  let resourceMatch := cap.resource = "orchestra:tools/" ++ toolName || cap.resource = toolsWildcard
  let abilityMatch := cap.ability = "tool/invoke" || cap.ability = "*"
  resourceMatch && abilityMatch

/-- `is_authorized` from step 1 on, for an agent that is not revoked. -/
def authorizeTool (host : Host) (acl : ToolACL) (toolName : String) (ucan : Option UCANToken) :
    Except AclError Bool :=
  if acl.denies toolName then .ok false
  else
    match ucan with
    | none => .ok (acl.checkAclOnly toolName)
    | some token =>
      if token.isExpired host.now then .ok false
      else if !acl.checkAclOnly toolName then .ok false
      else if !token.capabilities.any (invokes toolName) then .ok false
      else if token.proofs.isEmpty then .ok true
      else (validateProofChain host token).map (fun _ => true)

/-- `is_authorized`. Revocation is checked before anything else. -/
def isAuthorized (host : Host) (acl : ToolACL) (toolName : String) (ucan : Option UCANToken)
    (agentDid : Option String) (revocationList : Option (List String)) : Except AclError Bool :=
  match agentDid, revocationList with
  | some did, some revoked =>
    if revoked.contains did then .error (.agentRevoked did)
    else authorizeTool host acl toolName ucan
  | _, _ => authorizeTool host acl toolName ucan

/-! ## When it says yes -/

/-- Each token narrows the one before it. -/
def Narrows (chain : List UCANToken) : Prop :=
  chain.IsChain (fun parent child =>
    validateNarrowing parent.capabilities child.capabilities = true)

theorem validatePairs_ok_iff (i : Nat) (chain : List UCANToken) :
    validatePairs i chain = .ok () ↔ Narrows chain := by
  unfold Narrows
  induction chain generalizing i with
  | nil => simp [validatePairs]
  | cons parent rest ih =>
    cases rest with
    | nil => simp [validatePairs]
    | cons child rest =>
      rw [validatePairs, List.isChain_cons_cons]
      by_cases h : validateNarrowing parent.capabilities child.capabilities = true
      · rw [if_pos h, ih]
        simp [h]
      · simp [h]

/-- What a token must be for `is_authorized` to say yes: not expired, with a
capability for the tool, and narrowed all along the chain that can be read. -/
structure Backs (host : Host) (toolName : String) (token : UCANToken) : Prop where
  valid : token.isExpired host.now = false
  grants : ∃ cap ∈ token.capabilities, invokes toolName cap = true
  narrows : Narrows (fullChain host token)

theorem authorizeTool_iff (host : Host) (acl : ToolACL) (toolName : String)
    (ucan : Option UCANToken) :
    authorizeTool host acl toolName ucan = .ok true ↔
      acl.denies toolName = false ∧ acl.checkAclOnly toolName = true ∧
        ∀ token ∈ ucan, Backs host toolName token := by
  unfold authorizeTool
  by_cases hdeny : acl.denies toolName = true
  · simp [hdeny]
  simp only [hdeny, if_false, Bool.false_eq_true, true_and]
  cases ucan with
  | none => simp
  | some token =>
    by_cases hexp : token.isExpired host.now = true
    · have hno : ¬ Backs host toolName token := fun h => by simp [h.valid] at hexp
      simp [hexp, hno]
    by_cases hacl : acl.checkAclOnly toolName = true
    swap
    · simp [hexp, hacl]
    by_cases hcap : token.capabilities.any (invokes toolName) = true
    swap
    · have hno : ¬ Backs host toolName token := fun h => hcap (by simpa using h.grants)
      simp [hexp, hacl, hcap, hno]
    have hchain : (if token.proofs.isEmpty then .ok true
        else (validateProofChain host token).map (fun _ => true) : Except AclError Bool) = .ok true ↔
        Narrows (fullChain host token) := by
      rw [← validatePairs_ok_iff 0]
      by_cases hempty : token.proofs = []
      · simp [hempty, fullChain, validatePairs]
      · simp only [List.isEmpty_iff, hempty, if_false, validateProofChain]
        cases validatePairs 0 (fullChain host token) <;> simp [Except.map]
    simp only [hexp, hacl, hcap, Bool.not_true, Bool.false_eq_true, if_false, hchain, true_and,
      Option.mem_some_iff, forall_eq']
    constructor
    · exact fun h => ⟨by simpa using hexp, by simpa using hcap, h⟩
    · exact fun h => h.narrows

/-- `is_authorized` says yes only as its list alone would, and only when the
token, if there is one, backs the tool. -/
theorem isAuthorized_iff (host : Host) (acl : ToolACL) (toolName : String)
    (ucan : Option UCANToken) (agentDid : Option String) (revocationList : Option (List String)) :
    isAuthorized host acl toolName ucan agentDid revocationList = .ok true ↔
      (∀ did ∈ agentDid, ∀ revoked ∈ revocationList, did ∉ revoked) ∧
        acl.denies toolName = false ∧ acl.checkAclOnly toolName = true ∧
        ∀ token ∈ ucan, Backs host toolName token := by
  rw [← authorizeTool_iff]
  unfold isAuthorized
  cases agentDid with
  | none => simp
  | some did =>
    cases revocationList with
    | none => simp
    | some revoked =>
      by_cases h : did ∈ revoked
      · simp [h]
      · simp [h]

end orchestra.acl
