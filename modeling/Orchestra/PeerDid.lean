-- The DIDs of agents that hold their own keys (`messaging/peer_did.py`): how the
-- keys are written into a did:peer:2 and read back from it. Base58 and the text of
-- a service come from outside.
import Mathlib.Data.List.Basic
import Orchestra.Lib.Text
import Orchestra.Values

open texts

namespace orchestra.peer_did

abbrev Bytes := List UInt8

/-- The fields of a service, in their order. -/
abbrev Service (V : Type) := List (String × V)

/-- The codecs, and a text as a value of a service. The text of a service is its JSON in URL-safe
base64. -/
structure Codec (V : Type) where
  b58encode : Bytes → String
  b58decode : String → Except Raised Bytes
  str : String → V
  encodeService : Service V → String
  decodeService : String → Except Raised (Service V)

variable {V : Type}

/-- What the DIDs rely on: what was written can be read, keys as they were, and no text has
a dot. -/
structure Codec.Sound (C : Codec V) : Prop where
  decode_encode : ∀ b, C.b58decode (C.b58encode b) = .ok b
  decode_service : ∀ s, ∃ s', C.decodeService (C.encodeService s) = .ok s'
  plain_key : ∀ b, '.' ∉ (C.b58encode b).toList
  plain_service : ∀ s, '.' ∉ (C.encodeService s).toList

/-! ## Writing a DID -/

def prefixEd25519Pub : Bytes := [0xed, 0x01]

def prefixX25519Pub : Bytes := [0xec, 0x01]

/-- The parts of a DID behind its method, without their dots. -/
def didParts (C : Codec V) (encryptionKeys signingKeys : List Bytes) (service : Option (Service V)) :
    List (List Char) :=
  encryptionKeys.map (fun key => 'V' :: 'z' :: (C.b58encode (prefixX25519Pub ++ key)).toList) ++
    signingKeys.map (fun key => 'V' :: 'z' :: (C.b58encode (prefixEd25519Pub ++ key)).toList) ++
    (service.toList.filter (fun s => !s.isEmpty)).map (fun s => 'S' :: (C.encodeService s).toList)

def didMethod : String := "did:peer:2"

/-- `create_peer_did_numalgo_2` -/
def createPeerDidNumalgo2 (C : Codec V) (encryptionKeys signingKeys : List Bytes)
    (service : Option (Service V)) : String :=
  String.ofList (didMethod.toList ++
    (didParts C encryptionKeys signingKeys service).flatMap (fun part => '.' :: part))

/-! ## Reading a DID -/

structure VerificationMethod where
  id : String
  type : String
  controller : String
  publicKeyMultibase : String
deriving DecidableEq, Repr

structure DIDDocument (V : Type) where
  context : String
  id : String
  verificationMethod : List VerificationMethod
  keyAgreement : List String
  service : List (Service V)
deriving DecidableEq, Repr

/-- The service, with an id of its own when it has none. -/
def named (C : Codec V) (did : String) (doc : DIDDocument V) (s : Service V) : Service V :=
  if (s.lookup "id").isSome then s
  else s ++ [("id", C.str (did ++ "#service-" ++ toString (doc.service.length + 1)))]

/-- The document with the `n`-th key of the DID. A key of another kind is passed over. -/
def withKey (C : Codec V) (did : String) (doc : DIDDocument V) (n : Nat) (mc : Bytes) : DIDDocument V :=
  let kid := did ++ "#key-" ++ toString n
  if prefixX25519Pub.isPrefixOf mc then
    { doc with
      verificationMethod := doc.verificationMethod ++
        [⟨kid, "X25519KeyAgreementKey2020", did,
          "z" ++ C.b58encode (mc.drop prefixX25519Pub.length)⟩]
      keyAgreement := doc.keyAgreement ++ [kid] }
  else if prefixEd25519Pub.isPrefixOf mc then
    { doc with
      verificationMethod := doc.verificationMethod ++
        [⟨kid, "Ed25519VerificationKey2020", did,
          "z" ++ C.b58encode (mc.drop prefixEd25519Pub.length)⟩] }
  else doc

/-- The loop over the parts. `n` is the number of the next key. -/
def readParts (C : Codec V) (did : String) :
    List (List Char) → DIDDocument V → Nat → Except Raised (DIDDocument V)
  | [], doc, _ => .ok doc
  | ('V' :: value) :: rest, doc, n =>
    match value with
    | 'z' :: key =>
      match C.b58decode (String.ofList key) with
      | .error e => .error e
      | .ok mc => readParts C did rest (withKey C did doc n mc) (n + 1)
    | _ => .error ⟨"ValueError", "Only base58btc (z) multibase supported", false⟩
  | ('S' :: value) :: rest, doc, n =>
    match C.decodeService (String.ofList value) with
    | .error e => .error e
    | .ok s => readParts C did rest { doc with service := doc.service ++ [named C did doc s] } n
  | _ :: rest, doc, n => readParts C did rest doc n

/-- The document before the first part. -/
def emptyDocument (did : String) : DIDDocument V :=
  ⟨"https://www.w3.org/ns/did/v1", did, [], [], []⟩

/-- `resolve_peer_did` -/
def resolvePeerDid (C : Codec V) (did : String) : Except Raised (DIDDocument V) :=
  if startsWith did didMethod then
    readParts C did ((did.toList.drop didMethod.toList.length).splitOn '.') (emptyDocument did) 1
  else .error ⟨"ValueError", "Unsupported DID method: " ++ did, false⟩

/-- The key of the first method for key agreement, with its id. -/
def agreementKey (C : Codec V) (did : String) :
    List VerificationMethod → Except Raised (String × Bytes)
  | [] =>
    .error ⟨"ValueError", "No X25519KeyAgreementKey2020 found in DID document for '" ++ did ++ "'",
      false⟩
  | vm :: rest =>
    if vm.type = "X25519KeyAgreementKey2020" then
      match vm.publicKeyMultibase.toList with
      | 'z' :: key =>
        match C.b58decode (String.ofList key) with
        | .error e => .error e
        | .ok raw => .ok (vm.id, raw)
      | _ =>
        .error ⟨"ValueError", "Expected base58btc (z-prefix) publicKeyMultibase in DID '" ++ did ++
          "'", false⟩
    else agreementKey C did rest

/-- `extract_x25519_key_from_did` -/
def extractX25519KeyFromDid (C : Codec V) (did : String) : Except Raised (String × Bytes) :=
  match resolvePeerDid C did with
  | .error e => .error e
  | .ok doc => agreementKey C did doc.verificationMethod

/-! ## What was written is read back -/

theorem intercalate_dots (parts : List (List Char)) :
    ['.'].intercalate ([] :: parts) = parts.flatMap (fun part => '.' :: part) := by
  induction parts with
  | nil => rfl
  | cons part rest ih =>
    cases rest with
    | nil => simp [List.intercalate]
    | cons next more =>
      rw [List.flatMap_cons, ← ih]
      simp [List.intercalate]

/-- The parts are read as they were written, when no text in them has a dot. -/
theorem parts_of_create {C : Codec V} (hkey : ∀ b, '.' ∉ (C.b58encode b).toList)
    (hservice : ∀ s, '.' ∉ (C.encodeService s).toList) (encryptionKeys signingKeys : List Bytes)
    (service : Option (Service V)) :
    ((createPeerDidNumalgo2 C encryptionKeys signingKeys service).toList.drop
      didMethod.toList.length).splitOn '.' =
        [] :: didParts C encryptionKeys signingKeys service := by
  have hplain : ∀ part ∈ [] :: didParts C encryptionKeys signingKeys service, '.' ∉ part := by
    intro part hpart
    rcases List.mem_cons.mp hpart with rfl | hpart
    · simp
    · simp only [didParts, List.mem_append, List.mem_map] at hpart
      rcases hpart with (⟨key, -, rfl⟩ | ⟨key, -, rfl⟩) | ⟨s, -, rfl⟩
      · simp [hkey]
      · simp [hkey]
      · simp [hservice]
  rw [createPeerDidNumalgo2, String.toList_ofList, List.drop_left, ← intercalate_dots]
  exact List.splitOn_intercalate '.' hplain (List.cons_ne_nil _ _)

theorem startsWith_create (C : Codec V) (encryptionKeys signingKeys : List Bytes)
    (service : Option (Service V)) :
    startsWith (createPeerDidNumalgo2 C encryptionKeys signingKeys service) didMethod = true := by
  rw [startsWith_iff, createPeerDidNumalgo2, String.toList_ofList]
  exact List.prefix_append _ _

theorem withKey_x25519 (C : Codec V) (did : String) (doc : DIDDocument V) (n : Nat) (x : Bytes) :
    withKey C did doc n (prefixX25519Pub ++ x) =
      { doc with
        verificationMethod := doc.verificationMethod ++
          [⟨did ++ "#key-" ++ toString n, "X25519KeyAgreementKey2020", did, "z" ++ C.b58encode x⟩]
        keyAgreement := doc.keyAgreement ++ [did ++ "#key-" ++ toString n] } := by
  have hcodec : prefixX25519Pub.isPrefixOf (prefixX25519Pub ++ x) = true := by simp
  unfold withKey
  simp only [hcodec, if_true, List.drop_left]

theorem withKey_ed25519 (C : Codec V) (did : String) (doc : DIDDocument V) (n : Nat) (x : Bytes) :
    withKey C did doc n (prefixEd25519Pub ++ x) =
      { doc with
        verificationMethod := doc.verificationMethod ++
          [⟨did ++ "#key-" ++ toString n, "Ed25519VerificationKey2020", did,
            "z" ++ C.b58encode x⟩] } := by
  have hother : prefixX25519Pub.isPrefixOf (prefixEd25519Pub ++ x) = false := rfl
  have hcodec : prefixEd25519Pub.isPrefixOf (prefixEd25519Pub ++ x) = true := by simp
  unfold withKey
  simp only [hother, hcodec, if_true, List.drop_left, Bool.false_eq_true, if_false]

theorem methods_withKey (C : Codec V) (did : String) (doc : DIDDocument V) (n : Nat) (mc : Bytes) :
    doc.verificationMethod <+: (withKey C did doc n mc).verificationMethod := by
  unfold withKey
  dsimp only
  split
  · exact List.prefix_append _ _
  split
  · exact List.prefix_append _ _
  · exact List.prefix_refl _

/-- The later parts of a DID leave the methods of the earlier ones. -/
theorem methods_readParts {C : Codec V} {did : String} {parts : List (List Char)}
    {doc doc' : DIDDocument V} {n : Nat} (h : readParts C did parts doc n = .ok doc') :
    doc.verificationMethod <+: doc'.verificationMethod := by
  revert h
  fun_induction readParts C did parts doc n with
  | case1 doc n =>
    rintro ⟨⟩
    exact List.prefix_refl _
  | case2 => rintro ⟨⟩
  | case3 rest doc n key mc hkey ih =>
    intro h
    exact (methods_withKey C did doc n mc).trans (ih h)
  | case4 => rintro ⟨⟩
  | case5 => rintro ⟨⟩
  | case6 value rest doc n s hs ih => exact ih
  | case7 part rest doc n hkey hservice ih => exact ih

/-- The DID of one key for agreement and one for signing leads back to the first. -/
theorem extract_create {C : Codec V} (hC : C.Sound) (x ed : Bytes) (service : Option (Service V)) :
    extractX25519KeyFromDid C (createPeerDidNumalgo2 C [x] [ed] service) =
      .ok (createPeerDidNumalgo2 C [x] [ed] service ++ "#key-1", x) := by
  have hparts := parts_of_create hC.plain_key hC.plain_service [x] [ed] service
  have hstart := startsWith_create C [x] [ed] service
  generalize createPeerDidNumalgo2 C [x] [ed] service = did at *
  have hfirst : resolvePeerDid C did = readParts C did
      (('V' :: 'z' :: (C.b58encode (prefixEd25519Pub ++ ed)).toList) ::
        (service.toList.filter (fun s => !s.isEmpty)).map
          (fun s => 'S' :: (C.encodeService s).toList))
      (withKey C did (emptyDocument did) 1 (prefixX25519Pub ++ x)) 2 := by
    unfold resolvePeerDid
    rw [if_pos hstart, hparts]
    simp [didParts, readParts, hC.decode_encode]
  have hdone : ∃ doc, resolvePeerDid C did = .ok doc := by
    rw [hfirst]
    rcases service with _ | ⟨_ | ⟨field, fields⟩⟩
    · simp [readParts, hC.decode_encode]
    · simp [readParts, hC.decode_encode]
    · obtain ⟨s, hs⟩ := hC.decode_service (field :: fields)
      simp [readParts, hC.decode_encode, hs]
  obtain ⟨doc, hdoc⟩ := hdone
  have hmethods := methods_readParts (hfirst.symm.trans hdoc)
  rw [withKey_x25519] at hmethods
  obtain ⟨more, hmore⟩ := hmethods
  unfold extractX25519KeyFromDid
  rw [hdoc]
  simp only [← hmore, emptyDocument, List.nil_append, List.cons_append, agreementKey, if_true]
  have hkey : ("z" ++ C.b58encode x).toList = 'z' :: (C.b58encode x).toList := by simp
  rw [hkey]
  simp only [String.ofList_toList, hC.decode_encode, String.append_assoc]
  rfl

end orchestra.peer_did
