-- The keys of a secure provider (`messaging/secure_provider.py`): they are renewed
-- on request and by age, and the last ones stay to read messages that are still on
-- their way. JWE comes from outside.
import Orchestra.Lib.Json
import Orchestra.PeerDid

open dicts jsons orchestra.peer_did

namespace orchestra.key_rotation

/-! ## Keys -/

/-- A pair of X25519 keys: the public one and the private one. -/
structure OKPKey where
  x : Bytes
  d : Bytes
deriving DecidableEq, Repr

structure AgentKeyMaterial where
  did : String
  kid : String
  keypair : OKPKey
  createdAt : Rat
  version : Nat
  rotatedAt : Option Rat
deriving DecidableEq, Repr

/-- JWE, with the codecs of the DIDs. -/
structure Jose extends Codec String where
  encryptCompact : List (String × String) → String → Bytes → String
  decryptCompact : String → OKPKey → List String → Except Raised (Option String)

def allowedAlgorithms : List String := ["ECDH-ES+A256KW", "A256GCM"]

def maxKeyHistory : Nat := 3

def baseProtectedHeader : List (String × String) :=
  [("alg", "ECDH-ES+A256KW"), ("enc", "A256GCM"), ("typ", "application/didcomm-encrypted+json")]

/-- What the random generator and the clocks say while new keys are made. -/
structure Fresh where
  keypair : OKPKey
  signing : Bytes
  createdAt : Rat
  rotatedAt : Rat
  monotonic : Rat
  wall : Rat
deriving DecidableEq, Repr

/-- `_generate_key_material` -/
def generateKeyMaterial (J : Jose) (natsUrl : String) (f : Fresh) : AgentKeyMaterial :=
  let did := createPeerDidNumalgo2 J.toCodec [f.keypair.x] [f.signing]
    (some [("type", "DIDCommMessaging"), ("serviceEndpoint", natsUrl)])
  ⟨did, did ++ "#key-1", f.keypair, f.createdAt, 1, none⟩

/-! ## The provider -/

structure SecureNatsProvider where
  ownKeys : AgentKeyMaterial
  keyRotationInterval : Int
  natsUrl : String
  keyCreatedAt : Rat
  keyWallTime : Rat
  recipientCache : Dict String (String × Bytes)
  keyHistory : List AgentKeyMaterial

namespace SecureNatsProvider

/-- `create` -/
def create (J : Jose) (natsUrl : String) (keyRotationInterval : Int) (f : Fresh) :
    SecureNatsProvider :=
  ⟨generateKeyMaterial J natsUrl f, keyRotationInterval, natsUrl, f.monotonic, f.wall, .empty, []⟩

/-- `history.append(old)`, cut to the last ones. -/
def archive (history : List AgentKeyMaterial) (old : AgentKeyMaterial) : List AgentKeyMaterial :=
  let history := history ++ [old]
  if maxKeyHistory < history.length then history.drop (history.length - maxKeyHistory) else history

/-- `rotate_keys` -/
def rotateKeys (J : Jose) (p : SecureNatsProvider) (f : Fresh) : SecureNatsProvider :=
  { p with
    ownKeys := { generateKeyMaterial J p.natsUrl f with
      version := p.ownKeys.version + 1
      rotatedAt := some f.rotatedAt }
    keyHistory := archive p.keyHistory p.ownKeys
    keyCreatedAt := f.monotonic
    keyWallTime := f.wall
    recipientCache := .empty }

/-- The key of a session is older than the interval. An interval of 0 or less is never over. -/
def expired (p : SecureNatsProvider) (now : Rat) : Bool :=
  0 < p.keyRotationInterval && p.keyRotationInterval ≤ now - p.keyCreatedAt

/-- `_rotate_keys_if_needed`, which rotates as `rotate_keys` does. -/
def rotateKeysIfNeeded (J : Jose) (p : SecureNatsProvider) (now : Rat) (f : Fresh) :
    SecureNatsProvider :=
  if p.expired now then p.rotateKeys J f else p

/-- `_resolve_recipient` -/
def resolveRecipient (J : Jose) (p : SecureNatsProvider) (did : String) :
    SecureNatsProvider × Except Raised (String × Bytes) :=
  match p.recipientCache.get? did with
  | some key => (p, .ok key)
  | none =>
    match extractX25519KeyFromDid J.toCodec did with
    | .error e => (p, .error e)
    | .ok key => ({ p with recipientCache := p.recipientCache.set did key }, .ok key)

/-- A call of `encrypt_for`: the message, and what the clocks and the generators say. -/
structure Request where
  id : String
  createdTime : Int
  body : List (String × Json)
  distinct : (Json.obj body).Distinct
  recipientDid : String
  now : Rat
  fresh : Fresh

/-- The message that a request encrypts. -/
def Request.jwm (r : Request) : Json :=
  .obj [("id", .str r.id), ("type", .str "https://orchestra.ai/protocols/task/1.0/request"),
    ("created_time", .int r.createdTime), ("body", .obj r.body)]

/-- `int(seconds)` -/
def wholeSeconds (seconds : Rat) : Int := seconds.num.tdiv seconds.den

/-- `encrypt_for` -/
def encryptFor (J : Jose) (p : SecureNatsProvider) (r : Request) :
    SecureNatsProvider × Except Raised String :=
  let p := p.rotateKeysIfNeeded J r.now r.fresh
  let header := baseProtectedHeader ++ [("kid", "key-" ++ toString (wholeSeconds p.keyWallTime))]
  let (p, key) := p.resolveRecipient J r.recipientDid
  (p, key.map (fun key => J.encryptCompact header (dumps r.jwm) key.2))

/-- The loop of `decrypt`. Whatever goes wrong with one key, the next one is tried. -/
def tryKeys (J : Jose) (token : String) : List AgentKeyMaterial → Except Raised Json
  | [] => .error ⟨"ValueError", "Failed to decrypt JWE token with any known key", false⟩
  | key :: rest =>
    match J.decryptCompact token key.keypair allowedAlgorithms with
    | .error _ => tryKeys J token rest
    | .ok none => tryKeys J token rest
    | .ok (some plaintext) =>
      match loads plaintext with
      | none => tryKeys J token rest
      | some jwm => .ok jwm

/-- `decrypt` -/
def decrypt (J : Jose) (p : SecureNatsProvider) (token : String) : Except Raised Json :=
  tryKeys J token (p.ownKeys :: p.keyHistory.reverse)

end SecureNatsProvider

open SecureNatsProvider

/-! ## The life of a provider -/

/-- The calls that may renew the keys. -/
inductive Call
  | rotateKeys (f : Fresh)
  | encryptFor (r : Request)

def Call.fresh : Call → Fresh
  | .rotateKeys f => f
  | .encryptFor r => r.fresh

def step (J : Jose) (p : SecureNatsProvider) : Call → SecureNatsProvider
  | .rotateKeys f => p.rotateKeys J f
  | .encryptFor r => (p.encryptFor J r).1

def run (J : Jose) (p : SecureNatsProvider) (calls : List Call) : SecureNatsProvider :=
  calls.foldl (step J) p

/-- The call renews the keys. -/
def Call.rotates (p : SecureNatsProvider) : Call → Bool
  | .rotateKeys _ => true
  | .encryptFor r => p.expired r.now

/-- The keys that the calls replace, in their order. -/
def superseded (J : Jose) (p : SecureNatsProvider) : List Call → List AgentKeyMaterial
  | [] => []
  | call :: rest =>
    (if call.rotates p then [p.ownKeys] else []) ++ superseded J (step J p call) rest

/-- All keys that the provider has had, the current one last. -/
def generations (J : Jose) (p : SecureNatsProvider) (calls : List Call) : List AgentKeyMaterial :=
  superseded J p calls ++ [(run J p calls).ownKeys]

/-- What is assumed of JWE: a key opens exactly the tokens for it. -/
structure Jose.Sound (J : Jose) : Prop extends Codec.Sound J.toCodec where
  opens : ∀ header plaintext key,
    J.decryptCompact (J.encryptCompact header plaintext key.x) key allowedAlgorithms =
      .ok (some plaintext)
  closed : ∀ header plaintext x key, key.x ≠ x →
    ∃ e, J.decryptCompact (J.encryptCompact header plaintext x) key allowedAlgorithms = .error e

variable {J : Jose} {p : SecureNatsProvider}

/-! ## One call -/

/-- A cached key is the one that its DID leads to. -/
def CacheTrue (J : Jose) (p : SecureNatsProvider) : Prop :=
  ∀ did key, p.recipientCache.get? did = some key →
    extractX25519KeyFromDid J.toCodec did = .ok key

/-- The DID of a key leads back to it. -/
def Resolves (J : Jose) (m : AgentKeyMaterial) : Prop :=
  extractX25519KeyFromDid J.toCodec m.did = .ok (m.kid, m.keypair.x)

theorem resolves_generated (hJ : J.Sound) (natsUrl : String) (f : Fresh) :
    Resolves J (generateKeyMaterial J natsUrl f) :=
  extract_create hJ.toSound _ _ _

/-- A recipient is looked up in the cache or in its DID, and both say the same. -/
theorem resolveRecipient_eq (hcache : CacheTrue J p) (did : String) :
    (p.resolveRecipient J did).2 = extractX25519KeyFromDid J.toCodec did := by
  unfold resolveRecipient
  rcases hget : p.recipientCache.get? did with _ | key
  · rcases hkey : extractX25519KeyFromDid J.toCodec did with e | key
    · rfl
    · rfl
  · exact (hcache did key hget).symm

theorem cache_resolveRecipient (hcache : CacheTrue J p) (did : String) :
    CacheTrue J (p.resolveRecipient J did).1 := by
  unfold resolveRecipient
  rcases p.recipientCache.get? did with _ | key
  · rcases hkey : extractX25519KeyFromDid J.toCodec did with e | key
    · exact hcache
    · intro did' key' hget
      simp only at hget
      by_cases hdid : did = did'
      · subst hdid
        rw [Dict.get?_set_self] at hget
        rw [hkey, Option.some.inj hget]
      · rw [Dict.get?_set_ne _ _ hdid] at hget
        exact hcache did' key' hget
  · exact hcache

/-- A lookup leaves the keys of the provider as they are. -/
theorem keys_resolveRecipient (p : SecureNatsProvider) (did : String) :
    (p.resolveRecipient J did).1.ownKeys = p.ownKeys ∧
      (p.resolveRecipient J did).1.keyHistory = p.keyHistory := by
  unfold resolveRecipient
  split
  · exact ⟨rfl, rfl⟩
  · split <;> exact ⟨rfl, rfl⟩

theorem cache_rotateKeys (f : Fresh) : CacheTrue J (p.rotateKeys J f) := by
  intro did key hget
  cases hget

theorem cache_rotateKeysIfNeeded (hcache : CacheTrue J p) (now : Rat) (f : Fresh) :
    CacheTrue J (p.rotateKeysIfNeeded J now f) := by
  unfold rotateKeysIfNeeded
  split
  · exact cache_rotateKeys f
  · exact hcache

theorem cache_step (hcache : CacheTrue J p) (call : Call) : CacheTrue J (step J p call) := by
  cases call with
  | rotateKeys f => exact cache_rotateKeys f
  | encryptFor r =>
    exact cache_resolveRecipient (cache_rotateKeysIfNeeded hcache r.now r.fresh) r.recipientDid

/-- A call renews the keys, with the old ones archived, or leaves them. -/
theorem keys_step (p : SecureNatsProvider) (call : Call) :
    (call.rotates p = true ∧ (step J p call).ownKeys = (p.rotateKeys J call.fresh).ownKeys ∧
        (step J p call).keyHistory = archive p.keyHistory p.ownKeys) ∨
      (call.rotates p = false ∧ (step J p call).ownKeys = p.ownKeys ∧
        (step J p call).keyHistory = p.keyHistory) := by
  cases call with
  | rotateKeys f => exact Or.inl ⟨rfl, rfl, rfl⟩
  | encryptFor r =>
    obtain ⟨hown, hhistory⟩ :=
      keys_resolveRecipient (J := J) (p.rotateKeysIfNeeded J r.now r.fresh) r.recipientDid
    rcases hexpired : p.expired r.now with _ | _
    · refine Or.inr ⟨hexpired, hown.trans ?_, hhistory.trans ?_⟩
      all_goals
        simp [rotateKeysIfNeeded, hexpired]
    · refine Or.inl ⟨hexpired, hown.trans ?_, hhistory.trans ?_⟩
      all_goals
        simp [rotateKeysIfNeeded, hexpired]
        rfl

/-! ## The history of a run -/

theorem archive_drop (old : List AgentKeyMaterial) (m : AgentKeyMaterial) :
    archive (old.drop (old.length - maxKeyHistory)) m =
      (old ++ [m]).drop ((old ++ [m]).length - maxKeyHistory) := by
  have hone : old.length - maxKeyHistory ≤ old.length := Nat.sub_le ..
  have hboth : old.drop (old.length - maxKeyHistory) ++ [m] =
      (old ++ [m]).drop (old.length - maxKeyHistory) := by
    rw [List.drop_append_of_le_length hone]
  unfold archive
  rw [hboth]
  simp only [List.length_drop, List.length_append, List.length_singleton, List.drop_drop]
  unfold maxKeyHistory
  split
  · congr 1
    omega
  · congr 1
    omega

/-- Where the keys of a provider stand that replaced the keys `old`. -/
structure Kept (J : Jose) (p : SecureNatsProvider) (old : List AgentKeyMaterial) : Prop where
  version : p.ownKeys.version = old.length + 1
  numbered : old.map (·.version) = List.range' 1 old.length
  history : p.keyHistory = old.drop (old.length - maxKeyHistory)
  resolves : ∀ m ∈ old ++ [p.ownKeys], Resolves J m

theorem kept_create (hJ : J.Sound) (natsUrl : String) (interval : Int) (f : Fresh) :
    Kept J (create J natsUrl interval f) [] := by
  refine ⟨rfl, rfl, rfl, ?_⟩
  intro m hm
  rw [List.mem_singleton.mp hm]
  exact resolves_generated hJ natsUrl f

theorem kept_step (hJ : J.Sound) {old : List AgentKeyMaterial} (h : Kept J p old) (call : Call) :
    Kept J (step J p call) (old ++ if call.rotates p then [p.ownKeys] else []) := by
  rcases keys_step (J := J) p call with ⟨hrot, hown, hhistory⟩ | ⟨hrot, hown, hhistory⟩
  · simp only [hrot, if_true]
    refine ⟨?_, ?_, ?_, ?_⟩
    · rw [hown, List.length_append, List.length_singleton]
      exact congrArg (· + 1) h.version
    · rw [List.map_append, h.numbered, List.length_append, List.length_singleton,
        List.range'_1_concat]
      simp [h.version, Nat.add_comm]
    · rw [hhistory, h.history, archive_drop]
    · intro m hm
      rcases List.mem_append.mp hm with hm | hm
      · exact h.resolves m hm
      · rw [List.mem_singleton.mp hm, hown]
        exact resolves_generated hJ p.natsUrl call.fresh
  · simp only [hrot, Bool.false_eq_true, if_false, List.append_nil]
    exact ⟨hown ▸ h.version, h.numbered, hhistory.trans h.history, hown ▸ h.resolves⟩

theorem kept_run (hJ : J.Sound) {old : List AgentKeyMaterial} (h : Kept J p old)
    (calls : List Call) : Kept J (run J p calls) (old ++ superseded J p calls) := by
  induction calls generalizing p old with
  | nil =>
    rw [superseded, List.append_nil]
    exact h
  | cons call rest ih =>
    rw [superseded, ← List.append_assoc]
    exact ih (kept_step hJ h call)

theorem cache_run (hcache : CacheTrue J p) (calls : List Call) : CacheTrue J (run J p calls) := by
  induction calls generalizing p with
  | nil => exact hcache
  | cons call rest ih => exact ih (cache_step hcache call)

theorem cache_create (natsUrl : String) (interval : Int) (f : Fresh) :
    CacheTrue J (create J natsUrl interval f) := by
  intro did key hget
  cases hget

/-! ## Which keys open a token -/

/-- The keys that `decrypt` tries. -/
def triedKeys (p : SecureNatsProvider) : List AgentKeyMaterial :=
  p.ownKeys :: p.keyHistory.reverse

/-- A token opens when its key is among those that are tried, and then to its message. -/
theorem tryKeys_token (hJ : J.Sound) (header : List (String × String)) (x : Bytes) {jwm : Json}
    (hjwm : jwm.Distinct) (keys : List AgentKeyMaterial) :
    tryKeys J (J.encryptCompact header (dumps jwm) x) keys =
      if ∃ m ∈ keys, m.keypair.x = x then .ok jwm
      else .error ⟨"ValueError", "Failed to decrypt JWE token with any known key", false⟩ := by
  induction keys with
  | nil => simp [tryKeys]
  | cons key rest ih =>
    unfold tryKeys
    by_cases hkey : key.keypair.x = x
    · subst hkey
      simp only [hJ.opens, loads_dumps hjwm]
      simp
    · obtain ⟨e, he⟩ := hJ.closed header (dumps jwm) x key.keypair hkey
      simp only [he, ih, List.mem_cons, exists_eq_or_imp, hkey, false_or]

/-- Numbered from 1 on, the keys behind the first `n` are those with a number above `n`. -/
theorem mem_drop_iff {keys : List AgentKeyMaterial}
    (h : keys.map (·.version) = List.range' 1 keys.length) (n : Nat) {m : AgentKeyMaterial}
    (hm : m ∈ keys) : m ∈ keys.drop n ↔ n < m.version := by
  have hdrop : (keys.drop n).map (·.version) = List.range' (1 + n) (keys.length - n) := by
    rw [List.map_drop, h, List.drop_range', Nat.mul_one]
  constructor
  · intro hin
    have hmem := List.mem_map_of_mem (f := AgentKeyMaterial.version) hin
    rw [hdrop, List.mem_range'_1] at hmem
    omega
  · intro hlt
    rw [← List.take_append_drop n keys] at hm
    rcases List.mem_append.mp hm with hin | hin
    · obtain ⟨i, hi, rfl⟩ := List.mem_take_iff_getElem.mp hin
      have hversion : (keys.map (·.version))[i]? = some (keys[i].version) := by
        rw [List.getElem?_map, List.getElem?_eq_getElem (by omega)]
        rfl
      rw [h, List.getElem?_range' (by omega)] at hversion
      have heq := Option.some.inj hversion
      omega
    · exact hin

/-- Among keys that are all different, the tried ones are the last four versions. -/
theorem tried_iff {old : List AgentKeyMaterial} (h : Kept J p old)
    (hfresh : ((old ++ [p.ownKeys]).map (·.keypair.x)).Nodup) {m : AgentKeyMaterial}
    (hm : m ∈ old ++ [p.ownKeys]) :
    (∃ k ∈ triedKeys p, k.keypair.x = m.keypair.x) ↔
      p.ownKeys.version - m.version ≤ maxKeyHistory := by
  have hdrop : (old ++ [p.ownKeys]).drop (old.length - maxKeyHistory) =
      p.keyHistory ++ [p.ownKeys] := by
    rw [h.history, List.drop_append_of_le_length (Nat.sub_le ..)]
  have hmem : ∀ k, k ∈ triedKeys p ↔ k ∈ (old ++ [p.ownKeys]).drop (old.length - maxKeyHistory) := by
    intro k
    rw [hdrop]
    simp [triedKeys, or_comm]
  have hsame : (∃ k ∈ triedKeys p, k.keypair.x = m.keypair.x) ↔ m ∈ triedKeys p := by
    refine ⟨?_, fun hin => ⟨m, hin, rfl⟩⟩
    rintro ⟨k, hk, hx⟩
    have hall := List.mem_of_mem_drop ((hmem k).mp hk)
    rwa [← List.inj_on_of_nodup_map hfresh hall hm hx]
  have hnumbered : (old ++ [p.ownKeys]).map (·.version) =
      List.range' 1 (old ++ [p.ownKeys]).length := by
    rw [List.map_append, h.numbered, List.length_append, List.length_singleton,
      List.range'_1_concat]
    simp [h.version, Nat.add_comm]
  have hpos := List.mem_map_of_mem (f := AgentKeyMaterial.version) hm
  rw [hnumbered, List.mem_range'_1] at hpos
  rw [hsame, hmem, mem_drop_iff hnumbered _ hm, h.version]
  omega

/-! ## Old tokens -/

/-- Whoever encrypts to a DID of the provider, the token is made. -/
theorem encrypts {sender : SecureNatsProvider} (hcache : CacheTrue J sender) (r : Request)
    {m : AgentKeyMaterial} (hm : Resolves J m) (hdid : r.recipientDid = m.did) :
    ∃ header, (sender.encryptFor J r).2 =
      .ok (J.encryptCompact header (dumps r.jwm) m.keypair.x) := by
  have hkey := resolveRecipient_eq (cache_rotateKeysIfNeeded hcache r.now r.fresh) r.recipientDid
  rw [hdid, hm, ← hdid] at hkey
  unfold encryptFor
  simp only [hkey]
  exact ⟨_, rfl⟩

theorem distinct_jwm (r : Request) : r.jwm.Distinct := by
  have hbody := r.distinct
  simp only [Json.Distinct] at hbody
  simp [Request.jwm, Json.Distinct, DistinctMembers, hbody]

/-- In every run of a provider the superseded keys stand in the history up to the third, the
versions count from 1 on, and a token for a key of the provider is read exactly when the key
is at most three versions old. -/
theorem old_tokens_stay_readable (hJ : J.Sound) (natsUrl : String) (interval : Int) (f : Fresh)
    (calls : List Call)
    (hfresh : ((generations J (create J natsUrl interval f) calls).map (·.keypair.x)).Nodup) :
    let p := run J (create J natsUrl interval f) calls
    let old := superseded J (create J natsUrl interval f) calls
    p.keyHistory = old.drop (old.length - min maxKeyHistory (p.ownKeys.version - 1)) ∧
      (old ++ [p.ownKeys]).map (·.version) = List.range' 1 p.ownKeys.version ∧
      ∀ m ∈ old ++ [p.ownKeys], ∀ url age first others (r : Request), r.recipientDid = m.did →
        ∃ token, ((run J (create J url age first) others).encryptFor J r).2 = .ok token ∧
          ((∃ jwm, p.decrypt J token = .ok jwm) ↔
            p.ownKeys.version - m.version ≤ maxKeyHistory) ∧
          ∀ jwm, p.decrypt J token = .ok jwm → jwm = r.jwm := by
  intro p old
  have hkept : Kept J p old := kept_run hJ (kept_create hJ natsUrl interval f) calls
  refine ⟨?_, ?_, ?_⟩
  · rw [hkept.history, hkept.version]
    congr 1
    omega
  · rw [List.map_append, hkept.numbered, hkept.version, List.range'_1_concat]
    simp [hkept.version, Nat.add_comm]
  · intro m hm url age first others r hdid
    obtain ⟨header, htoken⟩ := encrypts (cache_run (cache_create url age first) others) r
      (hkept.resolves m hm) hdid
    have hread := tryKeys_token hJ header m.keypair.x (distinct_jwm r) (triedKeys p)
    refine ⟨_, htoken, ?_, ?_⟩
    · unfold decrypt
      rw [← tried_iff hkept hfresh hm]
      show (∃ jwm, tryKeys J _ (triedKeys p) = .ok jwm) ↔ _
      rw [hread]
      split
      · rename_i hin
        exact iff_of_true ⟨_, rfl⟩ hin
      · rename_i hout
        refine iff_of_false ?_ hout
        rintro ⟨jwm, ⟨⟩⟩
    · intro jwm hjwm
      unfold decrypt at hjwm
      change tryKeys J _ (triedKeys p) = .ok jwm at hjwm
      rw [hread] at hjwm
      split at hjwm
      · exact (Except.ok.inj hjwm).symm
      · cases hjwm

/-! ## A renewal -/

/-- The bytes of a text in hexadecimal digits. -/
def hexBytes : List Char → Bytes
  | a :: b :: rest =>
    UInt8.ofNat ((hexValue a).getD 0 * 16 + (hexValue b).getD 0) :: hexBytes rest
  | _ => []

def firstFresh : Fresh where
  keypair := ⟨hexBytes "ac03e66525a682611fdae5c05330ccb5952f4ef2e9d371935c9b9d891de2c812".toList,
    hexBytes "ec31682fde561917952ff78a7a8adeffd0febc372dd26871916c46c630381b45".toList⟩
  signing := hexBytes "a6fc5bc0705675ef729c3e005126a92feaeb1d3a3f8ba9a4dfa8620a2b37030c".toList
  createdAt := 1715000000
  rotatedAt := 1715000000
  monotonic := 100
  wall := 1715000000

def secondFresh : Fresh where
  keypair := ⟨hexBytes "669dbf265d91f2647738318268c367d46064b06b487ffdf2d265ca333efe234c".toList,
    hexBytes "844ecc08164e2eab27634a9adee1afa6599e589570e719784e080ce747fc0e45".toList⟩
  signing := hexBytes "0b174dd44d3b67cc175c7064a82d436449cba2e01a645228cf2270bf53af7293".toList
  createdAt := 1715000600
  rotatedAt := 1715000600
  monotonic := 700
  wall := 1715000600

/-- The texts in base58 of the two pairs of keys. -/
def base58Table : List (Bytes × String) :=
  [(prefixX25519Pub ++ firstFresh.keypair.x, "6LSoFejmUg7UQKufPHJmaCr4D3JjFBhVQaCQNe3VivKVToX"),
    (prefixEd25519Pub ++ firstFresh.signing, "6Mkqh6ukhwiKCgk52YfqtjXnSyRroa1uGEKVLHuMEVGCNpB"),
    (firstFresh.keypair.x, "CaUaFAsFNwcAZzuYEvgtjcppt6eanoQ3XPvN1GGnn62m"),
    (prefixX25519Pub ++ secondFresh.keypair.x, "6LSiakGA4tdk73jUExWEGXQvq6vYRGzWwGHgbTNwxTqq6zo"),
    (prefixEd25519Pub ++ secondFresh.signing, "6MkfCZ96PQzRjQDUbzG6FyJF4EZFMqrJBS8qo3WJ23UJq7Y"),
    (secondFresh.keypair.x, "7ua6dm5meeKzNrajhd1TcEtShGjspL68ocjhTVpK7jE3")]

/-- A letter for each byte, none of them in ASCII. -/
def byteLetter (b : UInt8) : Char := Char.ofNat (0x100 + b.toNat)

def letterByte (c : Char) : UInt8 := UInt8.ofNat (c.toNat - 0x100)

/-- A text of bytes that the table does not have starts with a zero, which is no letter of
base58. -/
def tableEncode (b : Bytes) : String :=
  match base58Table.lookup b with
  | some text => text
  | none => String.ofList ('0' :: b.map byteLetter)

def tableDecode (text : String) : Except Raised Bytes :=
  match base58Table.find? (fun e => e.2 = text) with
  | some e => .ok e.1
  | none =>
    match text.toList with
    | '0' :: letters => .ok (letters.map letterByte)
    | _ => .error ⟨"ValueError", "Invalid character", false⟩

def testUrl : String := "nats://localhost:4222"

def testService : Service String := [("type", "DIDCommMessaging"), ("serviceEndpoint", testUrl)]

def testServiceText : String :=
  "eyJ0eXBlIjoiRElEQ29tbU1lc3NhZ2luZyIsInNlcnZpY2VFbmRwb2ludCI6Im5hdHM6Ly9sb2NhbGhvc3Q6NDIyMiJ9"

/-- A token shows whom it is for, before its message. -/
def testJose : Jose where
  b58encode := tableEncode
  b58decode := tableDecode
  str := id
  encodeService s := if s = testService then testServiceText else ""
  decodeService text := .ok (if text = testServiceText then testService else [])
  encryptCompact _ plaintext x := String.ofList (x.map byteLetter ++ '.' :: plaintext.toList)
  decryptCompact token key _ :=
    if token.toList.takeWhile (· ≠ '.') = key.x.map byteLetter then
      .ok (some (String.ofList ((token.toList.dropWhile (· ≠ '.')).drop 1)))
    else .error ⟨"DecodeError", "decryption failed", false⟩

theorem letterByte_byteLetter (b : UInt8) : letterByte (byteLetter b) = b := by
  have hall : ∀ n < 256, letterByte (byteLetter (UInt8.ofNat n)) = UInt8.ofNat n := by
    decide +kernel
  have hb := hall b.toNat b.toNat_lt
  rwa [UInt8.ofNat_toNat] at hb

theorem byteLetter_ne (b : UInt8) : byteLetter b ≠ '.' := by
  have hall : ∀ n < 256, byteLetter (UInt8.ofNat n) ≠ '.' := by
    decide +kernel
  have hb := hall b.toNat b.toNat_lt
  rwa [UInt8.ofNat_toNat] at hb

theorem tableDecode_tableEncode (b : Bytes) : tableDecode (tableEncode b) = .ok b := by
  have htable : ∀ e ∈ base58Table, base58Table.find? (fun e' => e'.2 = e.2) = some e := by
    decide +kernel
  have hzero : ∀ e ∈ base58Table, e.2.toList.head? ≠ some '0' := by
    decide +kernel
  unfold tableEncode tableDecode
  rcases hlookup : base58Table.lookup b with _ | text
  · have hnone : base58Table.find?
        (fun e => decide (e.2 = String.ofList ('0' :: b.map byteLetter))) = none := by
      rw [List.find?_eq_none]
      intro e he heq
      have htext := of_decide_eq_true heq
      exact hzero e he (by rw [htext, String.toList_ofList]; rfl)
    simp only [hnone, String.toList_ofList, List.map_map]
    congr 1
    exact (List.map_congr_left (fun c _ => letterByte_byteLetter c)).trans (List.map_id b)
  · obtain ⟨before, after, heq, -⟩ := List.lookup_eq_some_iff.mp hlookup
    have hmem : (b, text) ∈ base58Table := by
      rw [heq]
      exact List.mem_append_right _ (List.mem_cons_self ..)
    simp only [htable (b, text) hmem]

theorem plain_tableEncode (b : Bytes) : '.' ∉ (tableEncode b).toList := by
  have htable : ∀ e ∈ base58Table, '.' ∉ e.2.toList := by
    decide +kernel
  unfold tableEncode
  rcases hlookup : base58Table.lookup b with _ | text
  · simp only [String.toList_ofList, List.mem_cons, List.mem_map, not_or, not_exists, not_and]
    exact ⟨by decide, fun c _ => byteLetter_ne c⟩
  · obtain ⟨before, after, heq, -⟩ := List.lookup_eq_some_iff.mp hlookup
    exact htable (b, text) (by rw [heq]; exact List.mem_append_right _ (List.mem_cons_self ..))

theorem byteLetters_injective {x y : Bytes} (h : x.map byteLetter = y.map byteLetter) : x = y := by
  have hback := congrArg (List.map letterByte) h
  have hid : ∀ z : Bytes, (z.map byteLetter).map letterByte = z := by
    intro z
    rw [List.map_map]
    exact (List.map_congr_left (fun c _ => letterByte_byteLetter c)).trans (List.map_id z)
  rwa [hid, hid] at hback

theorem testJose_sound : testJose.Sound := by
  have hfor : ∀ (x : Bytes) (rest : List Char),
      (x.map byteLetter ++ '.' :: rest).takeWhile (· ≠ '.') = x.map byteLetter ∧
        ((x.map byteLetter ++ '.' :: rest).dropWhile (· ≠ '.')).drop 1 = rest := by
    intro x rest
    have hplain : ∀ c ∈ x.map byteLetter, decide (c ≠ '.') = true := by
      intro c hc
      obtain ⟨b, -, rfl⟩ := List.mem_map.mp hc
      exact decide_eq_true (byteLetter_ne b)
    rw [List.takeWhile_append_of_pos hplain, List.dropWhile_append_of_pos hplain]
    simp
  refine ⟨⟨tableDecode_tableEncode, fun s => ⟨_, rfl⟩, plain_tableEncode, ?_⟩, ?_, ?_⟩
  · intro s
    show '.' ∉ (if s = testService then testServiceText else "").toList
    split
    · decide +kernel
    · simp
  · intro header plaintext key
    simp only [testJose, String.toList_ofList, hfor, if_true, String.ofList_toList]
  · intro header plaintext x key hne
    refine ⟨_, if_neg ?_⟩
    simp only [testJose, String.toList_ofList, hfor]
    exact fun h => hne (byteLetters_injective h).symm

/-- After one renewal the history has the first keys, and both versions are read. -/
theorem a_renewed_provider_reads_old_tokens :
    (run testJose (create testJose testUrl 3600 firstFresh)
        [.rotateKeys secondFresh]).keyHistory.map (·.version) = [1] ∧
      ∀ m ∈ generations testJose (create testJose testUrl 3600 firstFresh)
          [.rotateKeys secondFresh], ∀ r : Request, r.recipientDid = m.did →
        ∃ token, ((create testJose testUrl 3600 firstFresh).encryptFor testJose r).2 = .ok token ∧
          ∃ jwm, (run testJose (create testJose testUrl 3600 firstFresh)
            [.rotateKeys secondFresh]).decrypt testJose token = .ok jwm := by
  obtain ⟨-, -, hread⟩ := old_tokens_stay_readable testJose_sound testUrl 3600 firstFresh
    [.rotateKeys secondFresh] (by decide +kernel)
  refine ⟨rfl, fun m hm r hr => ?_⟩
  obtain ⟨token, htoken, hiff, -⟩ := hread m hm testUrl 3600 firstFresh [] r hr
  refine ⟨token, htoken, hiff.mpr ?_⟩
  show 2 - m.version ≤ maxKeyHistory
  exact Nat.le_trans (Nat.sub_le ..) (by decide)

end orchestra.key_rotation
