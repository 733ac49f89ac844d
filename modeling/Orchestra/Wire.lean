-- Capabilities on their way through a token: `issue` writes them into the claims
-- and `_build_token_obj` reads them back. A call limit is not written.
import Orchestra.CallLimits
import Orchestra.Delegation

open dicts orchestra.ucan orchestra.acl orchestra.delegation orchestra.call_limits

namespace orchestra.wire

variable {E K : Type}

/-! ## Minting -/

/-- The claims that `issue` signs. -/
def claims (manager : UCANManager) (audienceDid : String) (capabilities : List UCANCapability)
    (ttlSeconds : Int) (proofs : List String) (notBefore : Option Int) (now : Int)
    (nonce : String) : Payload where
  iss := some manager.issuerDid
  aud := some audienceDid
  nbf := some (match notBefore with
    | some n => if n ≠ 0 then n else now - 60
    | none => now - 60)
  exp := some (now + ttlSeconds)
  att := capabilities.map (·.attenuation)
  prf := proofs
  nnc := some nonce

/-- A token that is issued or delegated with the capabilities, and its claims. -/
inductive Minted (manager : UCANManager) (capabilities : List UCANCapability) :
    String → Payload → Prop
  | issued (audienceDid : String) (ttlSeconds : Int) (proofs : List String)
    (notBefore : Option Int) (now : Int) (nonce : String) :
    Minted manager capabilities
      (manager.issue audienceDid capabilities ttlSeconds proofs notBefore now nonce)
      (claims manager audienceDid capabilities ttlSeconds proofs notBefore now nonce)
  | delegated (parentToken audienceDid : String) (ttlSeconds now : Int) (nonce : String) :
    Minted manager capabilities
      (manager.delegate parentToken audienceDid capabilities ttlSeconds now nonce)
      (claims manager audienceDid capabilities ttlSeconds [parentToken] none now nonce)

/-- Signing is all that is done to the claims. -/
theorem issue_eq_encode_claims (manager : UCANManager) (audienceDid : String)
    (capabilities : List UCANCapability) (ttlSeconds : Int) (proofs : List String)
    (notBefore : Option Int) (now : Int) (nonce : String) :
    manager.issue audienceDid capabilities ttlSeconds proofs notBefore now nonce =
      manager.encode (claims manager audienceDid capabilities ttlSeconds proofs notBefore now
        nonce) := rfl

theorem encode_of_minted {manager : UCANManager} {capabilities : List UCANCapability}
    {token : String} {payload : Payload} (h : Minted manager capabilities token payload) :
    token = manager.encode payload := by
  cases h with
  | issued => apply issue_eq_encode_claims
  | delegated => apply issue_eq_encode_claims

theorem att_of_minted {manager : UCANManager} {capabilities : List UCANCapability}
    {token : String} {payload : Payload} (h : Minted manager capabilities token payload) :
    payload.att = capabilities.map (·.attenuation) := by
  cases h <;> rfl

theorem parties_of_minted {manager : UCANManager} {capabilities : List UCANCapability}
    {token : String} {payload : Payload} (h : Minted manager capabilities token payload) :
    payload.iss.isSome = true ∧ payload.aud.isSome = true := by
  cases h <;> simp [claims]

/-! ## Rebuilding -/

/-- The capability without its limit. -/
def unlimited (cap : UCANCapability) : UCANCapability := { cap with maxCalls := none }

@[simp] theorem capabilityOf_attenuation (cap : UCANCapability) :
    (capabilityOf cap.attenuation : Except (ChainError E) UCANCapability) = .ok (unlimited cap) :=
  rfl

theorem mapM_attenuation (capabilities : List UCANCapability) :
    ((capabilities.map (·.attenuation)).mapM capabilityOf : Except (ChainError E) _) =
      .ok (capabilities.map unlimited) := by
  induction capabilities with
  | nil => rfl
  | cons cap rest ih =>
    rw [List.map_cons, List.mapM_cons, ih, capabilityOf_attenuation]
    rfl

/-- A minted token is rebuilt with its capabilities, all of them unlimited. -/
theorem buildTokenObj_of_minted {manager : UCANManager} {capabilities : List UCANCapability}
    {token : String} {payload : Payload} (h : Minted manager capabilities token payload) :
    ∃ t, (buildTokenObj token payload : Except (ChainError E) UCANToken) = .ok t ∧
      t.capabilities = capabilities.map unlimited := by
  obtain ⟨hiss, haud⟩ := parties_of_minted h
  obtain ⟨issuerDid, hissuer⟩ := Option.isSome_iff_exists.mp hiss
  obtain ⟨audienceDid, haudience⟩ := Option.isSome_iff_exists.mp haud
  unfold buildTokenObj
  rw [att_of_minted h, mapM_attenuation, hissuer, haudience]
  exact ⟨_, rfl, rfl⟩

theorem map_unlimited_eq_iff (capabilities : List UCANCapability) :
    capabilities.map unlimited = capabilities ↔ ∀ cap ∈ capabilities, cap.maxCalls = none := by
  have hone : ∀ cap : UCANCapability, unlimited cap = cap ↔ cap.maxCalls = none := by
    intro cap
    obtain ⟨resource, ability, maxCalls⟩ := cap
    simp [unlimited, eq_comm]
  induction capabilities with
  | nil => simp
  | cons cap rest ih => simp [hone, ih]

theorem verify_ok {host : Host E K} {token expectedAudience : String} {key : K} {payload : Payload}
    (h : verify host token key expectedAudience = .ok payload) :
    host.jwtDecode token key = .ok payload := by
  unfold verify at h
  rcases hdecode : host.jwtDecode token key with e | decoded
  · cases e <;> simp [hdecode] at h
  · simp only [hdecode] at h
    split at h
    · cases h
    split at h
    · cases h
    split at h
    · cases h
    cases h
    rfl

/-- The capabilities of a token come back as they were given just when none of
them has a call limit. -/
theorem capabilities_survive_iff (host : Host E K) (manager : UCANManager)
    (capabilities : List UCANCapability) (token : String) (payload verified : Payload) (key : K)
    (expectedAudience : String) (hminted : Minted manager capabilities token payload)
    (hcodec : host.jwtDecode token key = .ok payload)
    (hverified : verify host token key expectedAudience = .ok verified) :
    (∃ t, (buildTokenObj token verified : Except (ChainError E) UCANToken) = .ok t ∧
        t.capabilities = capabilities) ↔
      ∀ cap ∈ capabilities, cap.maxCalls = none := by
  have hsame : verified = payload := by
    have hdecoded := verify_ok hverified
    rw [hcodec] at hdecoded
    exact (Except.ok.inj hdecoded).symm
  subst hsame
  obtain ⟨t, hbuild, hcaps⟩ := buildTokenObj_of_minted (E := E) hminted
  rw [← map_unlimited_eq_iff]
  constructor
  · rintro ⟨t', hbuild', hcaps'⟩
    rw [hbuild] at hbuild'
    cases hbuild'
    exact hcaps.symm.trans hcaps'
  · exact fun h => ⟨t, hbuild, hcaps.trans h⟩

/-! ## A token for a search -/

/-- `did:web:root` grants a search to `did:web:lead`. -/
@[irreducible] def searchToken : String :=
  "eyJhbGciOiJFZERTQSIsInR5cCI6IkpXVCJ9.eyJ1Y3YiOiIwLjguMSIsImlzcyI6ImRpZDp3ZWI6cm9vdCIsImF1" ++
  "ZCI6ImRpZDp3ZWI6bGVhZCIsIm5iZiI6MTc5OTk5OTk0MCwiZXhwIjoxODAwMDAzNjAwLCJhdHQiOlt7IndpdGgiOi" ++
  "JvcmNoZXN0cmE6dG9vbHMvc2VhcmNoIiwiY2FuIjoidG9vbC9pbnZva2UifV0sInByZiI6W10sIm5uYyI6IjVmM2E5" ++
  "YzBlMWI3ZDI0NjgifQ.ADFyep01EgUeJe9RBK6QWtD8OJeaURlSVbhXxDth7U6skd3LOmLuXqL4CLYm_GIJ8lenXGS" ++
  "_YCogaqxlWMocDQ"

/-- The key of `did:web:root`. -/
def rootKey : String := "loNnaJxCztp7xWXswtWsVMFI5aFpyV2W3aLNJz3GDWk"

def searchClaims : Payload :=
  ⟨some "did:web:root", some "did:web:lead", some 1799999940, some 1800003600,
    [⟨some "orchestra:tools/search", some "tool/invoke"⟩], [], some "5f3a9c0e1b7d2468"⟩

def host : Host String String where
  parse token := if token = searchToken then .ok searchClaims else .error "Not enough segments"
  resolve did := .error (.other s!"Unsupported DID method: {did}")
  importKey _ := .error (.other "Invalid character")
  jwtDecode token key :=
    if token = searchToken then
      if key = rootKey then .ok searchClaims else .error (.jose "bad_signature")
    else .error (.jose "bad_token")
  now := 1800000000
  signed := by
    intro token key payload h
    by_cases htoken : token = searchToken
    · by_cases hkey : key = rootKey
      · simpa [htoken, hkey] using h
      · simp [htoken, hkey] at h
    · simp [htoken] at h
  embeds := by
    intro token payload proof h hproof
    by_cases htoken : token = searchToken
    · simp only [htoken, if_true, Except.ok.injEq] at h
      subst h
      cases hproof
    · simp [htoken] at h

def root : UCANManager := ⟨"did:web:root", fun p => if p = searchClaims then searchToken else ""⟩

def search (maxCalls : Option Int) : UCANCapability :=
  ⟨"orchestra:tools/search", "tool/invoke", maxCalls⟩

theorem search_minted (maxCalls : Option Int) :
    Minted root [search maxCalls] searchToken searchClaims := by
  have h := @Minted.issued root [search maxCalls] "did:web:lead" 3600 [] none 1800000000
    "5f3a9c0e1b7d2468"
  have hclaims : claims root "did:web:lead" [search maxCalls] 3600 [] none 1800000000
      "5f3a9c0e1b7d2468" = searchClaims := rfl
  rw [issue_eq_encode_claims, hclaims] at h
  simpa [root] using h

theorem searchToken_decodes : host.jwtDecode searchToken rootKey = .ok searchClaims := by
  simp [host]

theorem searchToken_verifies :
    verify host searchToken rootKey "did:web:lead" = .ok searchClaims := by
  unfold verify
  rw [searchToken_decodes]
  rfl

theorem search_survives :
    ∃ t, (buildTokenObj searchToken searchClaims : Except (ChainError String) UCANToken) = .ok t ∧
      t.capabilities = [search none] :=
  (capabilities_survive_iff host root [search none] searchToken searchClaims searchClaims rootKey
    "did:web:lead" (search_minted none) searchToken_decodes searchToken_verifies).mpr (by decide)

/-- A search for three calls comes back as a search without a limit. -/
theorem a_limit_is_lost :
    Minted root [search (some 3)] searchToken searchClaims ∧
      host.jwtDecode searchToken rootKey = .ok searchClaims ∧
      verify host searchToken rootKey "did:web:lead" = .ok searchClaims ∧
      ¬ ∃ t, (buildTokenObj searchToken searchClaims : Except (ChainError String) UCANToken) =
        .ok t ∧ t.capabilities = [search (some 3)] := by
  refine ⟨search_minted _, searchToken_decodes, searchToken_verifies, ?_⟩
  rintro ⟨t, hbuild, hcaps⟩
  cases hbuild
  simp [search] at hcaps

end orchestra.wire
