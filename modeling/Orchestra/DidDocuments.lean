-- What a did:peer:2 says (`messaging/peer_did.py`): the document of a DID that was made from keys
-- and a service has all of them. Base58 and JSON come from outside.
import Orchestra.Lib.Base58
import Orchestra.Lib.Base64
import Orchestra.Lib.Json
import Orchestra.PeerDid

open dicts jsons texts orchestra.peer_did

namespace orchestra.did_documents

/-! ## The text of a service -/

/-- Base58, and the JSON of services, whose values are of a type `V`. -/
structure Formats (V : Type) where
  b58encode : Bytes → String
  b58decode : String → Except Raised Bytes
  str : String → V
  dumps : Service V → String
  loads : Bytes → Except Raised (Service V)

variable {V : Type}

/-- `text.encode("utf-8")` -/
def utf8 (text : String) : Bytes := text.toUTF8.data.toList

/-- `base64.urlsafe_b64decode` of a text -/
def urlsafeB64decode (text : List Char) : Except Raised Bytes :=
  if text.all fun c => c.toNat < 128 then
    match base64.decode text with
    | .error message => .error ⟨"Error", message, false⟩
    | .ok bytes => .ok bytes
  else .error ⟨"ValueError", "string argument should contain only ASCII characters", false⟩

namespace Formats

/-- The text of a service in a DID, which has no padding. -/
def encodeService (F : Formats V) (service : Service V) : String :=
  String.ofList (base64.unpadded (base64.encode (utf8 (F.dumps service))))

/-- The service of such a text. The padding is put back. -/
def decodeService (F : Formats V) (value : String) : Except Raised (Service V) :=
  match urlsafeB64decode (value.toList ++ base64.padding value.toList.length) with
  | .error e => .error e
  | .ok sJson => F.loads sJson

def codec (F : Formats V) : Codec V where
  b58encode := F.b58encode
  b58decode := F.b58decode
  str := F.str
  encodeService := F.encodeService
  decodeService := F.decodeService

/-- Both formats are read back as they were written, and no letter of base58 is a dot. -/
structure Inverse (F : Formats V) : Prop where
  decode_encode : ∀ b, F.b58decode (F.b58encode b) = .ok b
  plain_key : ∀ b, '.' ∉ (F.b58encode b).toList
  loads_dumps : ∀ s : Dict String V, F.loads (utf8 (F.dumps s.entries)) = .ok s.entries

variable {F : Formats V}

theorem exists_letter_of_mem {s : Service V} {c : Char} (hc : c ∈ (F.encodeService s).toList) :
    ∃ n, base64.letter n = c := by
  obtain ⟨digits, hdigits⟩ := base64.unpadded_letters (utf8 (F.dumps s))
  unfold encodeService at hc
  rw [String.toList_ofList, hdigits] at hc
  obtain ⟨n, -, hn⟩ := List.mem_map.mp hc
  exact ⟨n, hn⟩

theorem plain_encodeService (F : Formats V) (s : Service V) : '.' ∉ (F.encodeService s).toList := by
  intro hdot
  obtain ⟨n, hn⟩ := exists_letter_of_mem hdot
  exact (base64.letter_plain n).2.1 hn

theorem ascii_encode (b : Bytes) :
    ((base64.encode b).all fun c => decide (c.toNat < 128)) = true := by
  obtain ⟨digits, hb⟩ := base64.exists_letters b
  rw [hb, List.all_eq_true]
  intro c hc
  refine decide_eq_true ?_
  rcases List.mem_append.mp hc with hc | hc
  · obtain ⟨d, -, rfl⟩ := List.mem_map.mp hc
    exact (base64.letter_plain d).2.2
  · unfold base64.padding at hc
    split at hc
    · cases hc
    · rw [List.eq_of_mem_replicate hc]
      decide

theorem decodeService_encodeService (hF : F.Inverse) (s : Dict String V) :
    F.decodeService (F.encodeService s.entries) = .ok s.entries := by
  unfold decodeService encodeService
  rw [String.toList_ofList, base64.repadded]
  unfold urlsafeB64decode
  rw [if_pos (ascii_encode _), base64.decode_encode]
  exact hF.loads_dumps s

end Formats

/-! ## The document of a DID -/

def keyId (did : String) (n : Nat) : String := did ++ "#key-" ++ toString n

def x25519Type : String := "X25519KeyAgreementKey2020"

def ed25519Type : String := "Ed25519VerificationKey2020"

/-- The methods of keys of one type, numbered from `n` on. -/
def methodsOf (F : Formats V) (did type : String) (keys : List Bytes) (n : Nat) :
    List VerificationMethod :=
  (keys.zipIdx n).map fun key => ⟨keyId did key.2, type, did, "z" ++ F.b58encode key.1⟩

/-- The key of a method. -/
def keyOf (F : Formats V) (vm : VerificationMethod) : Except Raised Bytes :=
  match vm.publicKeyMultibase.toList with
  | 'z' :: text => F.b58decode (String.ofList text)
  | _ => .error ⟨"ValueError", "Only base58btc (z) multibase supported", false⟩

/-- The ids of `k` keys, numbered from `n` on. -/
def keyIds (did : String) (n k : Nat) : List String := (List.range' n k).map (keyId did)

/-- A service with an id: its own, or else the first of the DID. -/
def identified (F : Formats V) (did : String) (s : Dict String V) : Dict String V :=
  if "id" ∈ s.keys then s else s.set "id" (F.str (did ++ "#service-1"))

theorem ids_methodsOf (F : Formats V) (did type : String) (keys : List Bytes) (n : Nat) :
    (methodsOf F did type keys n).map (·.id) = keyIds did n keys.length := by
  unfold methodsOf keyIds
  rw [List.map_map, ← List.zipIdx_map_snd n keys, List.map_map]
  rfl

theorem keys_methodsOf {F : Formats V} (hF : F.Inverse) (did type : String) (keys : List Bytes)
    (n : Nat) : (methodsOf F did type keys n).map (fun vm => (vm.type, keyOf F vm)) =
      keys.map fun key => (type, .ok key) := by
  unfold methodsOf
  rw [List.map_map, ← List.zipIdx_map_fst n keys, List.map_map, List.zipIdx_map_fst]
  refine List.map_congr_left fun key _ => ?_
  have htext : ("z" ++ F.b58encode key.1).toList = 'z' :: (F.b58encode key.1).toList := by simp
  simp only [Function.comp_apply, keyOf, htext, String.ofList_toList, hF.decode_encode]

theorem methodsOf_cons (F : Formats V) (did type : String) (key : Bytes) (keys : List Bytes)
    (n : Nat) : methodsOf F did type (key :: keys) n =
      ⟨keyId did n, type, did, "z" ++ F.b58encode key⟩ :: methodsOf F did type keys (n + 1) := rfl

theorem keyIds_succ (did : String) (n k : Nat) :
    keyIds did n (k + 1) = keyId did n :: keyIds did (n + 1) k := rfl

/-- The keys for encryption, each under its number. -/
theorem readParts_encryption {F : Formats V} (hF : F.Inverse) (did : String) (keys : List Bytes)
    (rest : List (List Char)) (doc : DIDDocument V) (n : Nat) :
    readParts F.codec did (keys.map (fun key =>
        'V' :: 'z' :: (F.codec.b58encode (prefixX25519Pub ++ key)).toList) ++ rest) doc n =
      readParts F.codec did rest { doc with
        verificationMethod := doc.verificationMethod ++ methodsOf F did x25519Type keys n
        keyAgreement := doc.keyAgreement ++ keyIds did n keys.length } (n + keys.length) := by
  induction keys generalizing doc n with
  | nil => simp [methodsOf, keyIds]
  | cons key keys ih =>
    have hkey : F.codec.b58decode (F.codec.b58encode (prefixX25519Pub ++ key)) =
        .ok (prefixX25519Pub ++ key) := hF.decode_encode _
    rw [List.map_cons, List.cons_append, readParts, String.ofList_toList, hkey]
    dsimp only
    rw [withKey_x25519, ih, methodsOf_cons, List.length_cons, keyIds_succ, List.append_assoc,
      List.append_assoc, Nat.add_assoc, Nat.add_comm 1]
    rfl

/-- The keys for signing. -/
theorem readParts_signing {F : Formats V} (hF : F.Inverse) (did : String) (keys : List Bytes)
    (rest : List (List Char)) (doc : DIDDocument V) (n : Nat) :
    readParts F.codec did (keys.map (fun key =>
        'V' :: 'z' :: (F.codec.b58encode (prefixEd25519Pub ++ key)).toList) ++ rest) doc n =
      readParts F.codec did rest { doc with
        verificationMethod := doc.verificationMethod ++ methodsOf F did ed25519Type keys n }
        (n + keys.length) := by
  induction keys generalizing doc n with
  | nil => simp [methodsOf]
  | cons key keys ih =>
    have hkey : F.codec.b58decode (F.codec.b58encode (prefixEd25519Pub ++ key)) =
        .ok (prefixEd25519Pub ++ key) := hF.decode_encode _
    rw [List.map_cons, List.cons_append, readParts, String.ofList_toList, hkey]
    dsimp only
    rw [withKey_ed25519, ih, methodsOf_cons, List.length_cons, List.append_assoc, Nat.add_assoc,
      Nat.add_comm 1]
    rfl

/-- The first service of a DID gets the id that is its own. -/
theorem named_first (F : Formats V) {did : String} {doc : DIDDocument V} (h : doc.service = [])
    (s : Dict String V) : named F.codec did doc s.entries = (identified F did s).entries := by
  have hhas : (s.entries.lookup "id").isSome = true ↔ "id" ∈ s.keys := by
    rw [Option.isSome_iff_exists]
    exact (s.mem_keys_iff "id").symm
  unfold named identified
  by_cases hid : "id" ∈ s.keys
  · rw [if_pos (hhas.mpr hid), if_pos hid]
  · have hfirst : did ++ "#service-" ++ toString 1 = did ++ "#service-1" := by
      rw [String.append_assoc]
      exact congrArg (did ++ ·) (by decide)
    rw [if_neg (fun hsome => hid (hhas.mp hsome)), if_neg hid, Dict.entries_set_of_not_mem hid, h,
      ← hfirst]
    rfl

/-- The services of a DID: the given one, when it has a field. -/
def services (F : Formats V) (did : String) (service : Option (Dict String V)) :
    List (Service V) :=
  (service.toList.filter fun s => !s.entries.isEmpty).map fun s => (identified F did s).entries

/-- The document of a DID that was made from keys and a service. -/
def documentOf (F : Formats V) (did : String) (encryptionKeys signingKeys : List Bytes)
    (service : Option (Dict String V)) : DIDDocument V where
  context := "https://www.w3.org/ns/did/v1"
  id := did
  verificationMethod := methodsOf F did x25519Type encryptionKeys 1 ++
    methodsOf F did ed25519Type signingKeys (1 + encryptionKeys.length)
  keyAgreement := keyIds did 1 encryptionKeys.length
  service := services F did service

/-- The DID that is made from keys and a service. -/
def didOf (F : Formats V) (encryptionKeys signingKeys : List Bytes)
    (service : Option (Dict String V)) : String :=
  createPeerDidNumalgo2 F.codec encryptionKeys signingKeys (service.map Dict.entries)

theorem readParts_nothing (C : Codec V) (did : String) (rest : List (List Char))
    (doc : DIDDocument V) (n : Nat) :
    readParts C did ([] :: rest) doc n = readParts C did rest doc n := rfl

/-- The part of the service, after those of the keys. -/
theorem readParts_service {F : Formats V} (hF : F.Inverse) (did : String)
    (service : Option (Dict String V)) {doc : DIDDocument V} (h : doc.service = []) (n : Nat) :
    readParts F.codec did
        (((service.map Dict.entries).toList.filter (fun s => !s.isEmpty)).map
          (fun s => 'S' :: (F.codec.encodeService s).toList)) doc n =
      .ok { doc with service := services F did service } := by
  unfold services
  have hsame : doc = { doc with service := [] } := by rw [← h]
  rcases service with _ | s
  · exact congrArg Except.ok hsame
  · cases hempty : s.entries.isEmpty with
    | true =>
      simp only [Option.map_some, Option.toList_some, List.filter_cons, hempty, Bool.not_true,
        Bool.false_eq_true, if_false, List.filter_nil, List.map_nil]
      exact congrArg Except.ok hsame
    | false =>
      have hservice : F.codec.decodeService (F.codec.encodeService s.entries) = .ok s.entries :=
        Formats.decodeService_encodeService hF s
      simp [readParts, hempty, hservice, named_first F h s, h]

theorem resolve_create {F : Formats V} (hF : F.Inverse) (encryptionKeys signingKeys : List Bytes)
    (service : Option (Dict String V)) :
    resolvePeerDid F.codec (didOf F encryptionKeys signingKeys service) =
      .ok (documentOf F (didOf F encryptionKeys signingKeys service) encryptionKeys signingKeys
        service) := by
  have hstart := startsWith_create F.codec encryptionKeys signingKeys (service.map Dict.entries)
  have hkey : ∀ b, '.' ∉ (F.codec.b58encode b).toList := hF.plain_key
  have hservice : ∀ s, '.' ∉ (F.codec.encodeService s).toList := F.plain_encodeService
  have hparts := parts_of_create hkey hservice encryptionKeys signingKeys
    (service.map Dict.entries)
  unfold didOf
  generalize createPeerDidNumalgo2 F.codec encryptionKeys signingKeys
    (service.map Dict.entries) = did at hstart hparts ⊢
  unfold resolvePeerDid
  rw [if_pos hstart, hparts, readParts_nothing, didParts, List.append_assoc,
    readParts_encryption hF, readParts_signing hF, readParts_service hF did service rfl]
  rfl

/-! ## A provider on a local server -/

/-- The service that a provider writes into its DIDs. -/
def natsService : Dict String String where
  entries := [("type", "DIDCommMessaging"), ("serviceEndpoint", "nats://localhost:4222")]
  nodup := by decide

def natsServiceText : String :=
  "\x7b\"type\":\"DIDCommMessaging\",\"serviceEndpoint\":\"nats://localhost:4222\"\x7d"

def objectOf (s : Service String) : Json := .obj (s.map fun e => (e.1, .str e.2))

/-- The fields of an object that has texts only. -/
def fieldsOf : Json → Option (Service String)
  | .obj members => members.mapM fun e =>
    match e.2 with
    | .str text => some (e.1, text)
    | _ => none
  | _ => none

/-- Base58, and JSON with the services of this provider in their compact text. -/
def natsFormats : Formats String where
  b58encode b := String.ofList (base58.b58encode b)
  b58decode text :=
    match base58.b58decode text.toList with
    | some b => .ok b
    | none => .error ⟨"ValueError", "Invalid character", false⟩
  str := id
  dumps s :=
    if dumps (objectOf s) = dumps (objectOf natsService.entries) then natsServiceText
    else dumps (objectOf s)
  loads b :=
    match ((String.fromUTF8? ⟨b.toArray⟩).bind loads).bind fieldsOf with
    | some s => .ok s
    | none => .error ⟨"JSONDecodeError", "Expecting value", false⟩

theorem fieldsOf_objectOf (s : Service String) : fieldsOf (objectOf s) = some s := by
  unfold fieldsOf objectOf
  dsimp only
  induction s with
  | nil => rfl
  | cons e rest ih =>
    rw [List.map_cons, List.mapM_cons, ih]
    rfl

theorem loads_objectOf (s : Dict String String) :
    loads (dumps (objectOf s.entries)) = some (objectOf s.entries) := by
  refine loads_dumps ⟨?_, ?_⟩
  · rw [List.map_map]
    exact s.nodup
  · rw [distinct_of_members]
    intro e he
    obtain ⟨field, -, rfl⟩ := List.mem_map.mp he
    trivial

theorem loads_natsServiceText :
    loads natsServiceText = some (objectOf natsService.entries) := by
  have hwritten : (loads natsServiceText).map dumps =
      some (dumps (objectOf natsService.entries)) := by
    decide +kernel
  obtain ⟨j, hj, hsame⟩ := Option.map_eq_some_iff.mp hwritten
  have hback := loads_dumps (loads_distinct hj)
  rw [hsame, loads_objectOf] at hback
  rw [hj, hback]

theorem fromUTF8_utf8 (text : String) : String.fromUTF8? ⟨(utf8 text).toArray⟩ = some text := by
  have hbytes : (⟨(utf8 text).toArray⟩ : ByteArray) = text.toUTF8 := rfl
  unfold String.fromUTF8?
  rw [hbytes, dif_pos (show text.toUTF8.IsValidUTF8 from text.isValidUTF8)]
  rfl

theorem natsFormats_inverse : natsFormats.Inverse where
  decode_encode b := by
    simp only [natsFormats, String.toList_ofList, base58.b58decode_b58encode]
  plain_key b := by
    intro hdot
    rw [natsFormats, String.toList_ofList] at hdot
    exact absurd (base58.b58encode_mem b _ hdot) (by decide)
  loads_dumps s := by
    have hback : loads (natsFormats.dumps s.entries) = some (objectOf s.entries) := by
      unfold natsFormats
      dsimp only
      split
      · rename_i hsame
        have hobject := (loads_objectOf s).symm.trans
          ((congrArg loads hsame).trans (loads_objectOf natsService))
        rw [Option.some.inj hobject]
        exact loads_natsServiceText
      · exact loads_objectOf s
    have hread : natsFormats.loads (utf8 (natsFormats.dumps s.entries)) =
        match ((String.fromUTF8? ⟨(utf8 (natsFormats.dumps s.entries)).toArray⟩).bind loads).bind
          fieldsOf with
        | some s => .ok s
        | none => .error ⟨"JSONDecodeError", "Expecting value", false⟩ := rfl
    rw [hread, fromUTF8_utf8, Option.bind_some, hback, Option.bind_some, fieldsOf_objectOf]

/-! ## What is recovered -/

/-- A DID leads back to all that it was made from: the keys in their order, under their types and
with numbers that follow one another, those for encryption as the keys of agreement, and the
service, with an id. -/
theorem did_documents_round_trip {F : Formats V} (hF : F.Inverse)
    (encryptionKeys signingKeys : List Bytes) (service : Option (Dict String V)) :
    ∃ doc, resolvePeerDid F.codec (didOf F encryptionKeys signingKeys service) = .ok doc ∧
      doc.verificationMethod.map (fun vm => (vm.type, keyOf F vm)) =
        encryptionKeys.map (fun key => (x25519Type, .ok key)) ++
          signingKeys.map (fun key => (ed25519Type, .ok key)) ∧
      doc.verificationMethod.map (·.id) = keyIds (didOf F encryptionKeys signingKeys service) 1
        (encryptionKeys.length + signingKeys.length) ∧
      doc.keyAgreement = keyIds (didOf F encryptionKeys signingKeys service) 1
        encryptionKeys.length ∧
      doc.service = (service.toList.filter fun s => !s.entries.isEmpty).map fun s =>
        (identified F (didOf F encryptionKeys signingKeys service) s).entries := by
  refine ⟨_, resolve_create hF encryptionKeys signingKeys service, ?_, ?_, rfl, rfl⟩
  · rw [documentOf, List.map_append, keys_methodsOf hF, keys_methodsOf hF]
  · rw [documentOf, List.map_append, ids_methodsOf, ids_methodsOf, keyIds, keyIds, keyIds,
      ← List.map_append, List.range'_append_1]

/-- The service of a provider has no id, and the document gives it one. -/
theorem a_service_gets_an_id :
    ∃ doc, resolvePeerDid natsFormats.codec
        (didOf natsFormats [List.replicate 32 1] [List.replicate 32 2] (some natsService)) =
          .ok doc ∧
      doc.service ≠ [natsService.entries] := by
  refine ⟨_, resolve_create natsFormats_inverse _ _ _, ?_⟩
  intro h
  have hlength := congrArg (List.map List.length) h
  revert hlength
  decide

theorem two_keys_and_a_service_return :
    ∃ doc, resolvePeerDid natsFormats.codec (didOf natsFormats
        [List.replicate 32 1, List.replicate 32 2] [List.replicate 32 3] (some natsService)) =
          .ok doc ∧
      doc.verificationMethod.map (fun vm => (vm.type, keyOf natsFormats vm)) =
        [(x25519Type, .ok (List.replicate 32 1)), (x25519Type, .ok (List.replicate 32 2)),
          (ed25519Type, .ok (List.replicate 32 3))] := by
  obtain ⟨doc, hdoc, hkeys, -⟩ := did_documents_round_trip natsFormats_inverse
    [List.replicate 32 1, List.replicate 32 2] [List.replicate 32 3] (some natsService)
  exact ⟨doc, hdoc, hkeys⟩

end orchestra.did_documents
