-- What the verification of a chain decides. It finds a proven path where there is
-- one, unless an exception that the loop does not catch comes before it.
import Orchestra.Delegation

open texts orchestra.ucan orchestra.delegation

namespace orchestra.provenance

variable {E K : Type}

/-! ## Proven paths -/

/-- `token` passes every check as a token of `issuerDid` to `audience`. -/
structure Valid (host : Host E K) (required : UCANCapability) (token audience issuerDid : String)
    (payload : Payload) : Prop where
  claims : host.parse token = .ok payload
  issuer : payload.iss.getD "" = issuerDid ∧ issuerDid ≠ ""
  signed : ∃ key, issuerKey host issuerDid = .ok key ∧ host.jwtDecode token key = .ok payload
  unexpired : host.now ≤ payload.exp.getD 0
  begun : payload.nbf.getD 0 ≤ host.now + 60
  addressed : payload.aud = some audience
  grants : checkCapability payload required = true

/-- A path of proofs from `token` to a token without proofs, each addressed to the
issuer of the one before it. -/
inductive ProvenPath (host : Host E K) (required : UCANCapability) : String → String → Prop
  | root {token audience issuerDid : String} {payload : Payload}
    (valid : Valid host required token audience issuerDid payload) (last : payload.prf = []) :
    ProvenPath host required token audience
  | proof {token audience issuerDid proof : String} {payload : Payload}
    (valid : Valid host required token audience issuerDid payload) (mem : proof ∈ payload.prf)
    (rest : ProvenPath host required proof issuerDid) : ProvenPath host required token audience

theorem verify_ok_iff {host : Host E K} {token audience : String} {key : K} {payload : Payload}
    (haud : audience ≠ "") :
    verify host token key audience = .ok payload ↔
      host.jwtDecode token key = .ok payload ∧ host.now ≤ payload.exp.getD 0 ∧
        payload.nbf.getD 0 ≤ host.now + 60 ∧ payload.aud = some audience := by
  unfold verify
  rcases host.jwtDecode token key with e | decoded
  · cases e <;> simp
  by_cases hexp : decoded.exp.getD 0 < host.now
  · simp only [hexp, if_true, reduceCtorEq, false_iff]
    rintro ⟨heq, hle, -⟩
    cases heq
    omega
  by_cases hnbf : host.now + 60 < decoded.nbf.getD 0
  · simp only [hexp, hnbf, if_true, if_false, reduceCtorEq, false_iff]
    rintro ⟨heq, -, hle, -⟩
    cases heq
    omega
  by_cases haddr : decoded.aud = some audience
  · simp only [hexp, hnbf, haddr, ne_eq, not_true, and_false, if_false, Except.ok.injEq]
    constructor
    · intro heq
      subst heq
      exact ⟨rfl, by omega, by omega, haddr⟩
    · exact fun h => h.1
  · have hmismatch : audience ≠ "" ∧ decoded.aud ≠ some audience := ⟨haud, haddr⟩
    simp only [hexp, hnbf, if_false]
    rw [if_pos hmismatch]
    simp only [reduceCtorEq, false_iff]
    rintro ⟨heq, -, -, hsame⟩
    cases heq
    exact haddr hsame

/-- The inspection of a token ends well exactly when it passes every check. -/
theorem inspect_ok_iff {host : Host E K} {required : UCANCapability}
    {token audience issuerDid : String} {payload : Payload} (haud : audience ≠ "") :
    inspect host required token audience = .ok (issuerDid, payload) ↔
      Valid host required token audience issuerDid payload := by
  unfold inspect
  constructor
  · intro h
    rcases hparse : host.parse token with message | claims
    · simp [hparse] at h
    simp only [hparse] at h
    by_cases hiss : claims.iss.getD "" = ""
    · simp [hiss] at h
    simp only [hiss, if_false] at h
    rcases hkey : issuerKey host (claims.iss.getD "") with e | key
    · simp [hkey] at h
    simp only [hkey] at h
    rcases hverify : verify host token key audience with e | verified
    · simp [hverify] at h
    simp only [hverify] at h
    by_cases hgrants : checkCapability verified required = true
    · simp only [hgrants, if_true, Except.ok.injEq, Prod.mk.injEq] at h
      obtain ⟨rfl, rfl⟩ := h
      obtain ⟨hdecode, hexp, hnbf, haddr⟩ := (verify_ok_iff haud).mp hverify
      have hsame := host.signed hdecode
      rw [hparse] at hsame
      cases hsame
      exact ⟨hparse, ⟨rfl, hiss⟩, ⟨key, hkey, hdecode⟩, hexp, hnbf, haddr, hgrants⟩
    · simp [hgrants] at h
  · intro h
    obtain ⟨hparse, ⟨rfl, hiss⟩, ⟨key, hkey, hdecode⟩, hexp, hnbf, haddr, hgrants⟩ := h
    have hverify := (verify_ok_iff haud).mpr ⟨hdecode, hexp, hnbf, haddr⟩
    simp only [hparse, hiss, if_false, hkey, hverify, hgrants, if_true]

theorem provenPath_iff {host : Host E K} {required : UCANCapability}
    {token audience issuerDid : String} {payload : Payload} (haud : audience ≠ "")
    (h : inspect host required token audience = .ok (issuerDid, payload)) :
    ProvenPath host required token audience ↔
      payload.prf = [] ∨ ∃ proof ∈ payload.prf, ProvenPath host required proof issuerDid := by
  constructor
  · intro hpath
    cases hpath with
    | root hvalid hlast =>
      rw [(inspect_ok_iff haud).mpr hvalid] at h
      cases h
      exact Or.inl hlast
    | proof hvalid hmem hrest =>
      rw [(inspect_ok_iff haud).mpr hvalid] at h
      cases h
      exact Or.inr ⟨_, hmem, hrest⟩
  · intro hcase
    have hvalid := (inspect_ok_iff haud).mp h
    rcases hcase with hlast | ⟨proof, hmem, hrest⟩
    · exact .root hvalid hlast
    · exact .proof hvalid hmem hrest

theorem not_provenPath {host : Host E K} {required : UCANCapability} {token audience : String}
    {e : ChainError E} (haud : audience ≠ "")
    (h : inspect host required token audience = .error e) :
    ¬ ProvenPath host required token audience := by
  intro hpath
  cases hpath with
  | root hvalid _ =>
    rw [(inspect_ok_iff haud).mpr hvalid] at h
    cases h
  | proof hvalid _ _ =>
    rw [(inspect_ok_iff haud).mpr hvalid] at h
    cases h

/-! ## The token that is returned -/

/-- Each entry of `att` has its two keys. -/
def Complete (payload : Payload) : Prop :=
  ∀ entry ∈ payload.att, entry.resource.isSome = true ∧ entry.ability.isSome = true

theorem mapM_capabilityOf (entries : List Attenuation) :
    (∃ capabilities, (entries.mapM capabilityOf : Except (ChainError E) _) = .ok capabilities) ∧
        (∀ entry ∈ entries, entry.resource.isSome = true ∧ entry.ability.isSome = true) ∨
      (∃ key, (entries.mapM capabilityOf : Except (ChainError E) _) = .error (.keyError key)) ∧
        ¬ ∀ entry ∈ entries, entry.resource.isSome = true ∧ entry.ability.isSome = true := by
  induction entries with
  | nil => exact Or.inl ⟨⟨[], rfl⟩, by simp⟩
  | cons entry rest ih =>
    rw [List.mapM_cons]
    rcases hresource : entry.resource with _ | resource
    · right
      refine ⟨⟨"with", ?_⟩, ?_⟩
      · simp [capabilityOf, hresource, bind, Except.bind]
      · simp [hresource]
    rcases hability : entry.ability with _ | ability
    · right
      refine ⟨⟨"can", ?_⟩, ?_⟩
      · simp [capabilityOf, hresource, hability, bind, Except.bind]
      · simp [hability]
    rcases ih with ⟨⟨capabilities, hrest⟩, hall⟩ | ⟨⟨key, hrest⟩, hnot⟩
    · left
      refine ⟨⟨⟨resource, ability, none⟩ :: capabilities, ?_⟩, ?_⟩
      · simp [capabilityOf, hresource, hability, hrest, bind, Except.bind, pure, Except.pure]
      · simpa [hresource, hability] using hall
    · right
      refine ⟨⟨key, ?_⟩, ?_⟩
      · simp [capabilityOf, hresource, hability, hrest, bind, Except.bind]
      · simpa [hresource, hability] using hnot

/-- A token with an issuer and an audience can be built exactly when its entries
are complete; else a `KeyError` is raised. -/
theorem buildTokenObj_cases {token : String} {payload : Payload} {issuerDid audience : String}
    (hiss : payload.iss = some issuerDid) (haud : payload.aud = some audience) :
    (∃ t, (buildTokenObj token payload : Except (ChainError E) _) = .ok t) ∧ Complete payload ∨
      (∃ key, (buildTokenObj token payload : Except (ChainError E) _) = .error (.keyError key)) ∧
        ¬ Complete payload := by
  rcases mapM_capabilityOf (E := E) payload.att with
    ⟨⟨capabilities, hmap⟩, hall⟩ | ⟨⟨key, hmap⟩, hnot⟩
  · have hbuild : ∃ t, (buildTokenObj token payload : Except (ChainError E) _) = .ok t := by
      unfold buildTokenObj
      rw [hmap, hiss, haud]
      exact ⟨_, rfl⟩
    exact Or.inl ⟨hbuild, hall⟩
  · have hbuild : (buildTokenObj token payload : Except (ChainError E) _) =
        .error (.keyError key) := by
      unfold buildTokenObj
      rw [hmap]
      rfl
    exact Or.inr ⟨⟨key, hbuild⟩, hnot⟩

/-! ## The search -/

/-- No exception that the loop lets through comes up in the search from a token:
not in its own checks, not in a proof with no proven one before it, and not when
the token of a proven path is built. -/
inductive Unhindered (host : Host E K) (required : UCANCapability) : String → String → Prop
  | stopped {token audience : String} {e : ChainError E}
    (raised : inspect host required token audience = .error e) (caught : e.caught = true) :
    Unhindered host required token audience
  | searched {token audience issuerDid : String} {payload : Payload}
    (inspected : inspect host required token audience = .ok (issuerDid, payload))
    (proofs : ∀ before proof after, payload.prf = before ++ proof :: after →
      (∀ earlier ∈ before, ¬ ProvenPath host required earlier issuerDid) →
        Unhindered host required proof issuerDid)
    (complete : (payload.prf = [] ∨
      ∃ proof ∈ payload.prf, ProvenPath host required proof issuerDid) → Complete payload) :
    Unhindered host required token audience

/-- What a result says about the path and the search. -/
def Tells {α : Type} (path unhindered : Prop) : Except (ChainError E) α → Prop
  | .ok _ => path ∧ unhindered
  | .error e => if e.caught then ¬ path ∧ unhindered else ¬ unhindered

/-- The proofs up to the first one with a path are unhindered. -/
def ClearTo (path unhindered : String → Prop) (proofs : List String) : Prop :=
  ∀ before proof after, proofs = before ++ proof :: after → (∀ earlier ∈ before, ¬ path earlier) →
    unhindered proof

theorem clearTo_cons {path unhindered : String → Prop} {proof : String} {rest : List String} :
    ClearTo path unhindered (proof :: rest) ↔
      unhindered proof ∧ (path proof ∨ ClearTo path unhindered rest) := by
  constructor
  · intro h
    refine ⟨h [] proof rest rfl (by simp), ?_⟩
    by_cases hpath : path proof
    · exact Or.inl hpath
    · right
      intro before later after heq hbefore
      apply h (proof :: before) later after (by rw [heq]; rfl)
      simpa [hpath] using hbefore
  · intro ⟨hfirst, hrest⟩ before later after heq hbefore
    cases before with
    | nil =>
      cases heq
      exact hfirst
    | cons earlier before =>
      cases heq
      have hpath := hbefore proof (List.mem_cons_self ..)
      exact (hrest.resolve_left hpath) before later after rfl
        (fun x hx => hbefore x (List.mem_cons_of_mem _ hx))

/-- The loop over the proofs, when each verification tells of its own search. -/
theorem grantedByProof_tells {path unhindered : String → Prop}
    {verifyProof : String → Except (ChainError E) UCANToken} {proofs : List String}
    (h : ∀ proof ∈ proofs, Tells (path proof) (unhindered proof) (verifyProof proof)) :
    match grantedByProof verifyProof proofs with
    | .ok granted => (granted = true ↔ ∃ proof ∈ proofs, path proof) ∧
        ClearTo path unhindered proofs
    | .error e => e.caught = false ∧ ¬ ClearTo path unhindered proofs := by
  induction proofs with
  | nil =>
    refine ⟨by simp, ?_⟩
    intro before proof after heq
    simp at heq
  | cons proof rest ih =>
    have hproof := h proof (List.mem_cons_self ..)
    have hrest := ih (fun p hp => h p (List.mem_cons_of_mem _ hp))
    rw [grantedByProof]
    rcases hverify : verifyProof proof with e | t
    · rw [hverify] at hproof
      by_cases hcaught : e.caught = true
      · simp only [Tells, hcaught, if_true] at hproof ⊢
        obtain ⟨hpath, hclear⟩ := hproof
        rcases hloop : grantedByProof verifyProof rest with e' | granted
        · rw [hloop] at hrest
          refine ⟨hrest.1, ?_⟩
          rw [clearTo_cons]
          rintro ⟨-, hp | hr⟩
          · exact hpath hp
          · exact hrest.2 hr
        · rw [hloop] at hrest
          refine ⟨?_, clearTo_cons.mpr ⟨hclear, Or.inr hrest.2⟩⟩
          rw [hrest.1]
          simp [hpath]
      · simp only [Tells, hcaught] at hproof ⊢
        refine ⟨by simpa using hcaught, ?_⟩
        rw [clearTo_cons]
        exact fun hclear => hproof hclear.1
    · rw [hverify] at hproof
      obtain ⟨hpath, hclear⟩ := hproof
      refine ⟨?_, clearTo_cons.mpr ⟨hclear, Or.inl hpath⟩⟩
      simp [hpath]

theorem unhindered_iff_of_error {host : Host E K} {required : UCANCapability}
    {token audience : String} {e : ChainError E}
    (h : inspect host required token audience = .error e) :
    Unhindered host required token audience ↔ e.caught = true := by
  constructor
  · intro hclear
    cases hclear with
    | stopped hraised hcaught =>
      rw [h] at hraised
      cases hraised
      exact hcaught
    | searched hinspected _ _ =>
      rw [h] at hinspected
      cases hinspected
  · exact fun hcaught => .stopped h hcaught

theorem unhindered_iff_of_ok {host : Host E K} {required : UCANCapability}
    {token audience issuerDid : String} {payload : Payload}
    (h : inspect host required token audience = .ok (issuerDid, payload)) :
    Unhindered host required token audience ↔
      ClearTo (fun p => ProvenPath host required p issuerDid)
          (fun p => Unhindered host required p issuerDid) payload.prf ∧
        ((payload.prf = [] ∨ ∃ proof ∈ payload.prf, ProvenPath host required proof issuerDid) →
          Complete payload) := by
  constructor
  · intro hclear
    cases hclear with
    | stopped hraised _ =>
      rw [h] at hraised
      cases hraised
    | searched hinspected hproofs hcomplete =>
      rw [h] at hinspected
      cases hinspected
      exact ⟨hproofs, hcomplete⟩
  · exact fun ⟨hproofs, hcomplete⟩ => .searched h hproofs hcomplete

/-- The token of a path that was found. -/
theorem buildTokenObj_tells {host : Host E K} {required : UCANCapability}
    {token audience issuerDid : String} {payload : Payload} (haud : audience ≠ "")
    (h : inspect host required token audience = .ok (issuerDid, payload)) {path : Prop}
    (hpath : path) {clear : Prop} (hclear : clear) :
    Tells path (clear ∧ Complete payload)
      (buildTokenObj token payload : Except (ChainError E) UCANToken) := by
  have hvalid := (inspect_ok_iff haud).mp h
  have hiss : payload.iss = some issuerDid := by
    obtain ⟨hgetD, hne⟩ := hvalid.issuer
    rcases hissuer : payload.iss with _ | did
    · simp only [hissuer, Option.getD_none] at hgetD
      exact absurd hgetD.symm hne
    · simp only [hissuer, Option.getD_some] at hgetD
      rw [hgetD]
  rcases @buildTokenObj_cases E token _ _ _ hiss hvalid.addressed with
    ⟨⟨t, hbuild⟩, hcomplete⟩ | ⟨⟨key, hbuild⟩, hnot⟩
  · rw [hbuild]
    exact ⟨hpath, hclear, hcomplete⟩
  · rw [hbuild]
    exact fun hboth => hnot hboth.2

/-- What the verification of a token tells about the proven paths from it. -/
theorem verifyTo_tells {host : Host E K} {required : UCANCapability} {fuel : Nat}
    {token audience : String} (hfuel : token.utf8ByteSize < fuel) (haud : audience ≠ "") :
    Tells (ProvenPath host required token audience) (Unhindered host required token audience)
      (verifyTo host required fuel token audience) := by
  induction fuel generalizing token audience with
  | zero => omega
  | succ fuel ih =>
    rw [verifyTo]
    rcases hinspect : inspect host required token audience with e | ⟨issuerDid, payload⟩
    · have hpath := not_provenPath haud hinspect
      simp only [Tells, unhindered_iff_of_error hinspect]
      by_cases hcaught : e.caught = true
      · simp [hcaught, hpath]
      · simp [hcaught]
    have hvalid := (inspect_ok_iff haud).mp hinspect
    have hproofs : ∀ proof ∈ payload.prf,
        Tells (ProvenPath host required proof issuerDid)
          (Unhindered host required proof issuerDid)
          (verifyTo host required fuel proof issuerDid) := by
      intro proof hmem
      have hshort := host.embeds hvalid.claims hmem
      exact ih (by omega) hvalid.issuer.2
    have hloop := grantedByProof_tells hproofs
    rw [provenPath_iff haud hinspect, unhindered_iff_of_ok hinspect]
    simp only [continueWith]
    by_cases hnone : payload.prf = []
    · have hclear : ClearTo (fun p => ProvenPath host required p issuerDid)
          (fun p => Unhindered host required p issuerDid) payload.prf := by
        rw [hnone]
        intro before proof after heq
        simp at heq
      rw [if_pos hnone]
      have htells := buildTokenObj_tells haud hinspect (Or.inl hnone :
        payload.prf = [] ∨ ∃ proof ∈ payload.prf, ProvenPath host required proof issuerDid) hclear
      simpa only [hnone, true_or, forall_const] using htells
    rw [if_neg hnone]
    rcases hgranted : grantedByProof (fun proof => verifyTo host required fuel proof issuerDid)
        payload.prf with e | granted
    · rw [hgranted] at hloop
      simp only [Tells, hloop.1]
      exact fun hboth => hloop.2 hboth.1
    · rw [hgranted] at hloop
      obtain ⟨hpath, hclear⟩ := hloop
      cases granted with
      | false =>
        have hno : ¬ ∃ proof ∈ payload.prf, ProvenPath host required proof issuerDid := by
          rw [← hpath]
          simp
        simp only [Tells, ChainError.caught, if_true, hnone, hno, false_or]
        exact ⟨not_false, hclear, fun hf => absurd hf not_false⟩
      | true =>
        have hyes := hpath.mp rfl
        have htells := buildTokenObj_tells haud hinspect (Or.inr hyes :
          payload.prf = [] ∨ ∃ proof ∈ payload.prf, ProvenPath host required proof issuerDid)
          hclear
        simpa only [hyes, or_true, forall_const] using htells

/-! ## Termination -/

theorem grantedByProof_congr {f g : String → Except (ChainError E) UCANToken} {proofs : List String}
    (h : ∀ proof ∈ proofs, f proof = g proof) : grantedByProof f proofs = grantedByProof g proofs := by
  induction proofs with
  | nil => rfl
  | cons proof rest ih =>
    rw [grantedByProof, grantedByProof, h proof (List.mem_cons_self ..),
      ih (fun p hp => h p (List.mem_cons_of_mem _ hp))]

/-- More depth than the size of the token changes nothing. -/
theorem verifyTo_enough {host : Host E K} {required : UCANCapability} {fuel : Nat}
    {token audience : String} (hfuel : token.utf8ByteSize < fuel) (haud : audience ≠ "") :
    verifyTo host required (fuel + 1) token audience = verifyTo host required fuel token audience := by
  induction fuel generalizing token audience with
  | zero => omega
  | succ fuel ih =>
    rw [verifyTo, verifyTo]
    rcases hinspect : inspect host required token audience with e | ⟨issuerDid, payload⟩
    · rfl
    have hvalid := (inspect_ok_iff haud).mp hinspect
    have hsame : ∀ proof ∈ payload.prf, verifyTo host required (fuel + 1) proof issuerDid =
        verifyTo host required fuel proof issuerDid := by
      intro proof hmem
      have hshort := host.embeds hvalid.claims hmem
      exact ih (by omega) hvalid.issuer.2
    simp only [continueWith, grantedByProof_congr hsame]

/-! ## The verification decides -/

/-- The verification ends, and it succeeds exactly when there is a proven path. -/
structure Decides (host : Host E K) (token : String) (required : UCANCapability)
    (audience : String) : Prop where
  terminates : ∀ extra, verifyTo host required (token.utf8ByteSize + 1 + extra) token audience =
    verifyDelegationChain host token required audience
  decides : (∃ t, verifyDelegationChain host token required audience = .ok t) ↔
    ProvenPath host required token audience

/-- The verification decides whether there is a proven path if and only if there is
none, or no exception that the loop lets through comes up in the search. -/
theorem verification_decides_iff (host : Host E K) (token : String) (required : UCANCapability)
    {audience : String} (haud : audience ≠ "") :
    Decides host token required audience ↔
      ¬ ProvenPath host required token audience ∨ Unhindered host required token audience := by
  have htells : Tells (ProvenPath host required token audience)
      (Unhindered host required token audience)
      (verifyDelegationChain host token required audience) :=
    verifyTo_tells (Nat.lt_succ_self _) haud
  constructor
  · intro hdecides
    by_cases hpath : ProvenPath host required token audience
    · right
      obtain ⟨t, hok⟩ := hdecides.decides.mpr hpath
      rw [hok] at htells
      exact htells.2
    · exact Or.inl hpath
  · intro hcase
    refine ⟨?_, ?_, ?_⟩
    · intro extra
      induction extra with
      | zero => rfl
      | succ extra ih =>
        rw [← ih]
        have hsize : token.utf8ByteSize < token.utf8ByteSize + 1 + extra := by omega
        exact verifyTo_enough hsize haud
    · intro ⟨t, hok⟩
      rw [hok] at htells
      exact htells.1
    · intro hpath
      have hclear := hcase.resolve_left (fun hnot => hnot hpath)
      rcases hresult : verifyDelegationChain host token required audience with e | t
      · rw [hresult] at htells
        by_cases hcaught : e.caught = true
        · simp only [Tells, hcaught, if_true] at htells
          exact absurd hpath htells.1
        · simp only [Tells, hcaught] at htells
          exact absurd hclear htells
      · exact ⟨t, rfl⟩

/-! ## A proof of an issuer that cannot be resolved -/

/-- `did:web:root` grants a search to `did:web:lead`. -/
@[irreducible] def rootToken : String :=
  "eyJhbGciOiJFZERTQSIsInR5cCI6IkpXVCJ9.eyJpc3MiOiJkaWQ6d2ViOnJvb3QiLCJhdWQiOiJkaWQ6d2ViOmx" ++
  "lYWQiLCJuYmYiOjAsImV4cCI6NDAwMDAwMDAwMCwiYXR0IjpbeyJ3aXRoIjoib3JjaGVzdHJhOnRvb2xzL3NlYXJ" ++
  "jaCIsImNhbiI6InRvb2wvaW52b2tlIn1dLCJwcmYiOltdfQ.XnIZgCs6zil9L6pUB_bn8KmxKJg_1zCIHWvtz8Xo" ++
  "FK9ibJZ2At95-2MXmAUuh8qLKCNH2DUjiGB9H12QA-54Bw"

/-- A token of `did:key:z6Mk` to `did:web:lead`. -/
@[irreducible] def strayToken : String :=
  "eyJhbGciOiJFZERTQSIsInR5cCI6IkpXVCJ9.eyJpc3MiOiJkaWQ6a2V5Ono2TWsiLCJhdWQiOiJkaWQ6d2ViOmx" ++
  "lYWQifQ.OS1anRL2Lx1491vtlO5vyqPmQAtVWoYIY1FEhxfq68QK72SOP2G0gDufI7IOuKvNukNI5mps9YBGfZ63" ++
  "rEFnBA"

/-- `did:web:lead` grants the search to `did:web:agent`, on these two proofs. -/
@[irreducible] def leafToken : String :=
  "eyJhbGciOiJFZERTQSIsInR5cCI6IkpXVCJ9.eyJpc3MiOiJkaWQ6d2ViOmxlYWQiLCJhdWQiOiJkaWQ6d2ViOmF" ++
  "nZW50IiwibmJmIjowLCJleHAiOjQwMDAwMDAwMDAsImF0dCI6W3sid2l0aCI6Im9yY2hlc3RyYTp0b29scy9zZWF" ++
  "yY2giLCJjYW4iOiJ0b29sL2ludm9rZSJ9XSwicHJmIjpbImV5SmhiR2NpT2lKRlpFUlRRU0lzSW5SNWNDSTZJa3B" ++
  "YVkNKOS5leUpwYzNNaU9pSmthV1E2YTJWNU9ubzJUV3NpTENKaGRXUWlPaUprYVdRNmQyVmlPbXhsWVdRaWZRLk9" ++
  "TMWFuUkwyTHgxNDkxdnRsTzV2eXFQbVFBdFZXb1lJWTFGRWh4ZnE2OFFLNzJTT1AyRzBnRHVmSTdJT3VLdk51a05" ++
  "JNW1wczlZQkdmWjYzckVGbkJBIiwiZXlKaGJHY2lPaUpGWkVSVFFTSXNJblI1Y0NJNklrcFhWQ0o5LmV5SnBjM01" ++
  "pT2lKa2FXUTZkMlZpT25KdmIzUWlMQ0poZFdRaU9pSmthV1E2ZDJWaU9teGxZV1FpTENKdVltWWlPakFzSW1WNGN" ++
  "DSTZOREF3TURBd01EQXdNQ3dpWVhSMElqcGJleUozYVhSb0lqb2liM0pqYUdWemRISmhPblJ2YjJ4ekwzTmxZWEp" ++
  "qYUNJc0ltTmhiaUk2SW5SdmIyd3ZhVzUyYjJ0bEluMWRMQ0p3Y21ZaU9sdGRmUS5YbklaZ0NzNnppbDlMNnBVQl9" ++
  "ibjhLbXhLSmdfMXpDSUhXdnR6OFhvRks5aWJKWjJBdDk1LTJNWG1BVXVoOHFMS0NOSDJEVWppR0I5SDEyUUEtNTR" ++
  "CdyJdfQ.M2sRfa1-2dgCUBleFZc6MZq1UaVOtRjPNKnrC8zsK9j3EZTgsztrha42diEfNDIfKDB27LqsYDrWEbR1" ++
  "Y16XAQ"

def search : Attenuation := ⟨some "orchestra:tools/search", some "tool/invoke"⟩

def claimsOf (token : String) : Except String Payload :=
  if token = rootToken then
    .ok ⟨some "did:web:root", some "did:web:lead", some 0, some 4000000000, [search], [], none⟩
  else if token = strayToken then
    .ok ⟨some "did:key:z6Mk", some "did:web:lead", none, none, [], [], none⟩
  else if token = leafToken then
    .ok ⟨some "did:web:lead", some "did:web:agent", some 0, some 4000000000, [search],
      [strayToken, rootToken], none⟩
  else .error "Not enough segments"

/-- The key that a token was signed with. -/
def signer (token : String) : String :=
  if token = leafToken then "gTl3Dqh9F19Wo1Rmw0x-zMuNipG07jeiXfYPW4_Js5Q"
  else "iojj3XQJ8ZX9UtstPLpdcspnCb8dlBIb83SIAbQPb1w"

def documentOf (did : String) : Except (ChainError String) DIDDocument :=
  if did = "did:web:root" then
    .ok ⟨[⟨some "Ed25519VerificationKey2020",
      some "zAKnL4NNf3DGWZJS6cPknBuEGnVsV4A4m5tgebLHaRSZ9"⟩]⟩
  else if did = "did:web:lead" then
    .ok ⟨[⟨some "Ed25519VerificationKey2020",
      some "z9hSR6S7WPtxmTojgo6GG3k4yDPecgJY292j7xrsUGWBu"⟩]⟩
  else .error (.other s!"Unsupported DID method: {did}")

def keyOf (base58 : String) : Except (ChainError String) String :=
  if base58 = "AKnL4NNf3DGWZJS6cPknBuEGnVsV4A4m5tgebLHaRSZ9" then
    .ok "iojj3XQJ8ZX9UtstPLpdcspnCb8dlBIb83SIAbQPb1w"
  else if base58 = "9hSR6S7WPtxmTojgo6GG3k4yDPecgJY292j7xrsUGWBu" then
    .ok "gTl3Dqh9F19Wo1Rmw0x-zMuNipG07jeiXfYPW4_Js5Q"
  else .error (.other "Invalid character")

def decodeWith (token key : String) : Except (DecodeError String) Payload :=
  match claimsOf token with
  | .error message => .error (.jose message)
  | .ok payload => if key = signer token then .ok payload else .error (.jose "bad_signature")

theorem claimsOf_decodeWith {token key : String} {payload : Payload}
    (h : decodeWith token key = .ok payload) : claimsOf token = .ok payload := by
  unfold decodeWith at h
  rcases hclaims : claimsOf token with message | claims
  · simp [hclaims] at h
  simp only [hclaims] at h
  by_cases hkey : key = signer token
  · simpa [hkey] using h
  · simp [hkey] at h

theorem size_rootToken : rootToken.utf8ByteSize = 310 := by decide +kernel

theorem size_strayToken : strayToken.utf8ByteSize = 182 := by decide +kernel

theorem size_leafToken : leafToken.utf8ByteSize = 974 := by decide +kernel

theorem strayToken_ne : strayToken ≠ rootToken := by
  intro h
  have hsize := congrArg String.utf8ByteSize h
  rw [size_strayToken, size_rootToken] at hsize
  cases hsize

theorem leafToken_ne : leafToken ≠ rootToken ∧ leafToken ≠ strayToken := by
  constructor
  · intro h
    have hsize := congrArg String.utf8ByteSize h
    rw [size_leafToken, size_rootToken] at hsize
    cases hsize
  · intro h
    have hsize := congrArg String.utf8ByteSize h
    rw [size_leafToken, size_strayToken] at hsize
    cases hsize

theorem size_of_proof {token proof : String} {payload : Payload}
    (h : claimsOf token = .ok payload) (hproof : proof ∈ payload.prf) :
    proof.utf8ByteSize < token.utf8ByteSize := by
  unfold claimsOf at h
  by_cases hroot : token = rootToken
  · rw [if_pos hroot] at h
    cases h
    cases hproof
  rw [if_neg hroot] at h
  by_cases hstray : token = strayToken
  · rw [if_pos hstray] at h
    cases h
    cases hproof
  rw [if_neg hstray] at h
  by_cases hleaf : token = leafToken
  · rw [if_pos hleaf] at h
    cases h
    rw [hleaf, size_leafToken]
    simp only [List.mem_cons, List.not_mem_nil, or_false] at hproof
    rcases hproof with hproof | hproof
    · rw [hproof, size_strayToken]
      omega
    · rw [hproof, size_rootToken]
      omega
  · rw [if_neg hleaf] at h
    cases h

def host : Host String String where
  parse := claimsOf
  resolve := documentOf
  importKey := keyOf
  jwtDecode := decodeWith
  now := 1800000000
  signed := claimsOf_decodeWith
  embeds := size_of_proof

def searching : UCANCapability := ⟨"orchestra:tools/search", "tool/invoke", none⟩

def rootClaims : Payload :=
  ⟨some "did:web:root", some "did:web:lead", some 0, some 4000000000, [search], [], none⟩

def leafClaims : Payload :=
  ⟨some "did:web:lead", some "did:web:agent", some 0, some 4000000000, [search],
    [strayToken, rootToken], none⟩

theorem claimsOf_rootToken : claimsOf rootToken = .ok rootClaims := by
  unfold claimsOf
  rw [if_pos rfl]
  rfl

theorem claimsOf_leafToken : claimsOf leafToken = .ok leafClaims := by
  unfold claimsOf
  rw [if_neg leafToken_ne.1, if_neg leafToken_ne.2, if_pos rfl]
  rfl

theorem decodeWith_signer {token : String} {payload : Payload}
    (h : claimsOf token = .ok payload) : decodeWith token (signer token) = .ok payload := by
  unfold decodeWith
  rw [h]
  exact if_pos rfl

theorem signer_rootToken : signer rootToken = "iojj3XQJ8ZX9UtstPLpdcspnCb8dlBIb83SIAbQPb1w" :=
  if_neg leafToken_ne.1.symm

theorem signer_leafToken : signer leafToken = "gTl3Dqh9F19Wo1Rmw0x-zMuNipG07jeiXfYPW4_Js5Q" :=
  if_pos rfl

theorem rootToken_valid :
    Valid host searching rootToken "did:web:lead" "did:web:root" rootClaims := by
  refine ⟨claimsOf_rootToken, by decide, ⟨signer rootToken, ?_, ?_⟩, by decide, by decide, rfl,
    by decide⟩
  · rw [signer_rootToken]
    decide
  · exact decodeWith_signer claimsOf_rootToken

theorem leafToken_valid :
    Valid host searching leafToken "did:web:agent" "did:web:lead" leafClaims := by
  refine ⟨claimsOf_leafToken, by decide, ⟨signer leafToken, ?_, ?_⟩, by decide, by decide, rfl,
    by decide⟩
  · rw [signer_leafToken]
    decide
  · exact decodeWith_signer claimsOf_leafToken

theorem inspect_strayToken : inspect host searching strayToken "did:web:lead" =
    .error (.other "Unsupported DID method: did:key:z6Mk") := by
  have hclaims : claimsOf strayToken =
      .ok ⟨some "did:key:z6Mk", some "did:web:lead", none, none, [], [], none⟩ := by
    unfold claimsOf
    rw [if_neg strayToken_ne, if_pos rfl]
  have hkey : issuerKey host "did:key:z6Mk" =
      .error (.other "Unsupported DID method: did:key:z6Mk") := by
    decide
  unfold inspect
  have hparse : host.parse strayToken = claimsOf strayToken := rfl
  simp [hparse, hclaims, hkey]

theorem a_root_token_is_decided : Decides host rootToken searching "did:web:lead" := by
  have hinspect := (inspect_ok_iff (by decide)).mpr rootToken_valid
  have hclear : Unhindered host searching rootToken "did:web:lead" := by
    apply Unhindered.searched hinspect
    · intro before proof after heq
      simp [rootClaims] at heq
    · intro _ entry hentry
      rw [List.mem_singleton.mp hentry]
      exact ⟨rfl, rfl⟩
  exact (verification_decides_iff host rootToken searching (by decide)).mpr (Or.inr hclear)

/-- The second proof is a proven path, and the first one ends the search. -/
theorem a_stray_proof_ends_the_search :
    ProvenPath host searching leafToken "did:web:agent" ∧
      verifyDelegationChain host leafToken searching "did:web:agent" =
        .error (.other "Unsupported DID method: did:key:z6Mk") ∧
      ¬ Decides host leafToken searching "did:web:agent" := by
  have hinspect := (inspect_ok_iff (by decide)).mpr leafToken_valid
  have hpath : ProvenPath host searching leafToken "did:web:agent" :=
    .proof leafToken_valid (by simp [leafClaims]) (.root rootToken_valid rfl)
  have hresult : verifyDelegationChain host leafToken searching "did:web:agent" =
      .error (.other "Unsupported DID method: did:key:z6Mk") := by
    obtain ⟨n, hn⟩ : ∃ n, leafToken.utf8ByteSize + 1 = n + 1 + 1 := ⟨973, by rw [size_leafToken]⟩
    have hstray : verifyTo host searching (n + 1) strayToken "did:web:lead" =
        .error (.other "Unsupported DID method: did:key:z6Mk") := by
      rw [verifyTo, inspect_strayToken]
    unfold verifyDelegationChain
    rw [hn, verifyTo, hinspect]
    simp [continueWith, leafClaims, grantedByProof, hstray, ChainError.caught]
  refine ⟨hpath, hresult, ?_⟩
  intro hdecides
  obtain ⟨t, hok⟩ := hdecides.decides.mpr hpath
  rw [hresult] at hok
  cases hok

end orchestra.provenance
