-- Chains of delegation (`identity/delegation.py`, `UCANManager.verify`): a token
-- is verified with the key of its issuer, and then one of its proofs must be
-- verified for that issuer in turn.
import Orchestra.Ucan

open texts orchestra.ucan

namespace orchestra.delegation

/-! ## The world outside -/

/-- What a call can raise. `E` are the exceptions of code outside. -/
inductive ChainError (E : Type)
  | ucanVerification (message : String)
  | capabilityDenied (message : String)
  | keyError (key : String)
  | other (error : E)
deriving DecidableEq

/-- The exceptions that the loop over the proofs catches. -/
def ChainError.caught {E : Type} : ChainError E → Bool
  | .ucanVerification _ => true
  | .capabilityDenied _ => true
  | .keyError _ => false
  | .other _ => false

/-- What the decoding of a signed token can raise: a `JoseError` or anything else. -/
inductive DecodeError (E : Type)
  | jose (message : String)
  | other (error : E)

structure VerificationMethod where
  type : Option String
  publicKeyMultibase : Option String

/-- Of a DID document, only the verification methods are read. -/
structure DIDDocument where
  verificationMethods : List VerificationMethod

/-- The functions of other packages, at one time of the clock. The claims of a
signed token are those that it shows unverified, and it is larger than the proofs
inside it. -/
structure Host (E K : Type) where
  parse : String → Except String Payload
  resolve : String → Except (ChainError E) DIDDocument
  importKey : String → Except (ChainError E) K
  jwtDecode : String → K → Except (DecodeError E) Payload
  now : Int
  signed : ∀ {token key payload}, jwtDecode token key = .ok payload → parse token = .ok payload
  embeds : ∀ {token payload proof}, parse token = .ok payload → proof ∈ payload.prf →
    proof.utf8ByteSize < token.utf8ByteSize

variable {E K : Type}

/-! ## One token -/

/-- The key of an issuer: the first Ed25519 key of its document. -/
def issuerKey (host : Host E K) (issuerDid : String) : Except (ChainError E) K :=
  match host.resolve issuerDid with
  | .error e => .error e
  | .ok doc =>
    let method := doc.verificationMethods.find? fun vm =>
      vm.type = some "Ed25519VerificationKey2020" ∨ vm.type = some "Ed25519VerificationKey2018"
    match method.bind (·.publicKeyMultibase) with
    | none => .error (.ucanVerification s!"No Ed25519 public key found for issuer {issuerDid}")
    | some multibase =>
      if multibase = "" then
        .error (.ucanVerification s!"No Ed25519 public key found for issuer {issuerDid}")
      else if startsWith multibase "z" then host.importKey (multibase.drop 1).toString
      else .error (.ucanVerification "Only base58btc (z) multibase supported for UCAN keys")

/-- A claim in a message. -/
def shown {α : Type} [ToString α] : Option α → String
  | none => "None"
  | some a => toString a

/-- `UCANManager.verify` -/
def verify (host : Host E K) (token : String) (key : K) (expectedAudience : String) :
    Except (ChainError E) Payload :=
  match host.jwtDecode token key with
  | .error (.jose message) => .error (.ucanVerification s!"JWT verification failed: {message}")
  | .error (.other e) => .error (.other e)
  | .ok payload =>
    if payload.exp.getD 0 < host.now then
      .error (.ucanVerification s!"UCAN expired at {shown payload.exp}")
    else if host.now + 60 < payload.nbf.getD 0 then
      .error (.ucanVerification s!"UCAN not yet valid (nbf: {shown payload.nbf})")
    else if expectedAudience ≠ "" ∧ payload.aud ≠ some expectedAudience then
      .error (.ucanVerification
        s!"Audience mismatch: expected {expectedAudience}, got {shown payload.aud}")
    else .ok payload

/-- The steps for one token, up to its proofs: its issuer and its claims. -/
def inspect (host : Host E K) (required : UCANCapability) (token expectedAudience : String) :
    Except (ChainError E) (String × Payload) :=
  match host.parse token with
  | .error message =>
    .error (.ucanVerification s!"Failed to parse UCAN header/payload: {message}")
  | .ok unverified =>
    let issuerDid := unverified.iss.getD ""
    if issuerDid = "" then .error (.ucanVerification "UCAN missing 'iss' claim")
    else
      match issuerKey host issuerDid with
      | .error e => .error e
      | .ok key =>
        match verify host token key expectedAudience with
        | .error e => .error e
        | .ok payload =>
          if checkCapability payload required then .ok (issuerDid, payload)
          else .error (.capabilityDenied
            s!"UCAN does not grant {required.ability} on {required.resource}")

/-- `att["with"]` and `att["can"]`, which must both be there. -/
def capabilityOf (entry : Attenuation) : Except (ChainError E) UCANCapability :=
  match entry.resource, entry.ability with
  | none, _ => .error (.keyError "with")
  | some _, none => .error (.keyError "can")
  | some resource, some ability => .ok ⟨resource, ability, none⟩

/-- `_build_token_obj` -/
def buildTokenObj (raw : String) (payload : Payload) : Except (ChainError E) UCANToken := do
  let capabilities ← payload.att.mapM capabilityOf
  let issuerDid ← payload.iss.elim (.error (.keyError "iss")) .ok
  let audienceDid ← payload.aud.elim (.error (.keyError "aud")) .ok
  return {
    raw
    issuerDid
    audienceDid
    capabilities
    notBefore := payload.nbf.getD 0
    expiresAt := payload.exp.getD 0
    nonce := payload.nnc.getD ""
    proofs := payload.prf }

/-! ## The chain -/

/-- The loop over the proofs: the first that verifies is enough. -/
def grantedByProof (verifyProof : String → Except (ChainError E) UCANToken) :
    List String → Except (ChainError E) Bool
  | [] => .ok false
  | proof :: rest =>
    match verifyProof proof with
    | .ok _ => .ok true
    | .error e => if e.caught then grantedByProof verifyProof rest else .error e

/-- What follows for a token once it has been inspected. -/
def continueWith (required : UCANCapability) (token : String)
    (verifyProof : String → String → Except (ChainError E) UCANToken) (issuerDid : String)
    (payload : Payload) : Except (ChainError E) UCANToken :=
  if payload.prf = [] then buildTokenObj token payload
  else
    match grantedByProof (fun proof => verifyProof proof issuerDid) payload.prf with
    | .error e => .error e
    | .ok false =>
      .error (.capabilityDenied s!"Capability {required.resource} not granted by any proofs")
    | .ok true => buildTokenObj token payload

/-- The recursion of `verify_delegation_chain`, to a depth of `fuel`. -/
def verifyTo (host : Host E K) (required : UCANCapability) :
    Nat → String → String → Except (ChainError E) UCANToken
  | 0, _, _ => .error (.ucanVerification "")
  | fuel + 1, token, expectedAudience =>
    match inspect host required token expectedAudience with
    | .error e => .error e
    | .ok (issuerDid, payload) =>
      continueWith required token (verifyTo host required fuel) issuerDid payload

/-- A chain of proofs inside one another is no deeper than its leaf is large. -/
def verifyDelegationChain (host : Host E K) (token : String) (required : UCANCapability)
    (expectedAudience : String) : Except (ChainError E) UCANToken :=
  verifyTo host required (token.utf8ByteSize + 1) token expectedAudience

end orchestra.delegation
