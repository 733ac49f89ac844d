-- The cache in front of a provider (`providers/cached.py`): what its key shows of a request, which
-- requests have one key, and whose response an answer from the cache is.
import Orchestra.Lib.Decimal
import Orchestra.Replay

open codes decimals jsons orchestra.commitments
open orchestra.prompt_hash (MessageRole role_inj)

namespace orchestra.response_cache

/-! ## Values -/

/-- A value in a tool, an argument or an attachment. `other` is an object that JSON does not have:
which one it is, and its `str`. -/
inductive PyValue
  | null
  | bool (b : Bool)
  | int (i : Int)
  | float (x : PyFloat)
  | str (s : String)
  | list (items : List PyValue)
  | tuple (items : List PyValue)
  | dict (members : List (String × PyValue))
  | other (object : Nat) (text : String)

mutual

/-- The value as `json.dumps` sees it, with `default=str`. -/
def toJson : PyValue → JsonValue
  | .null => .null
  | .bool b => .bool b
  | .int i => .int i
  | .float x => .float x
  | .str s => .str s
  | .list items | .tuple items => .arr (toJsonItems items)
  | .dict members => .obj (toJsonMembers members)
  | .other _ text => .str text

def toJsonItems : List PyValue → List JsonValue
  | [] => []
  | item :: items => toJson item :: toJsonItems items

def toJsonMembers : List (String × PyValue) → List (String × JsonValue)
  | [] => []
  | (key, value) :: members => (key, toJson value) :: toJsonMembers members

end

/-- A `dict[str, Any]`. -/
structure Fields where
  members : List (String × PyValue)
  distinct : (toJson (.dict members)).Distinct

/-- Values that are equal, whatever the order of the keys in their dicts. -/
inductive SameValue : PyValue → PyValue → Prop
  | null : SameValue .null .null
  | bool (b : Bool) : SameValue (.bool b) (.bool b)
  | int (i : Int) : SameValue (.int i) (.int i)
  | float (x : PyFloat) : SameValue (.float x) (.float x)
  | str (s : String) : SameValue (.str s) (.str s)
  | list {xs ys : List PyValue} (items : List.Forall₂ SameValue xs ys) :
    SameValue (.list xs) (.list ys)
  | tuple {xs ys : List PyValue} (items : List.Forall₂ SameValue xs ys) :
    SameValue (.tuple xs) (.tuple ys)
  | dict {xs ys : List (String × PyValue)}
    (members : ∀ key, Option.Rel SameValue (xs.lookup key) (ys.lookup key)) :
    SameValue (.dict xs) (.dict ys)
  | other (object : Nat) (text : String) : SameValue (.other object text) (.other object text)

/-- Dicts that are equal. -/
def SameFields (a b : Fields) : Prop := SameValue (.dict a.members) (.dict b.members)

/-- Dicts that JSON writes alike, but for the order of keys. -/
def ShownAlike (a b : Fields) : Prop :=
  Same (toJson (.dict a.members)) (toJson (.dict b.members))

/-! ## Requests -/

structure ToolCall where
  id : String
  name : String
  arguments : Fields

structure Message where
  role : MessageRole
  content : String
  name : Option String
  toolCallId : Option String
  toolCalls : Option (List ToolCall)
  attachments : Option (List Fields)
  metadata : Fields

/-- A number: an integer, or a finite float by its sign and its size. -/
inductive Temperature
  | int (i : Int)
  | float (negative : Bool) (size : Rat) (nonneg : 0 ≤ size)

def Temperature.value : Temperature → Rat
  | .int i => i
  | .float negative size _ => if negative then -size else size

/-- A class of pydantic, by its `__name__` and the schema that it gives. -/
structure OutputType where
  name : String
  schema : JsonValue

structure Request where
  messages : List Message
  model : Option String
  temperature : Temperature
  maxTokens : Option Int
  tools : Option (List Fields)
  outputType : Option OutputType

structure CachedProvider where
  defaultModel : String
  maxTemp : Rat
  cacheToolCalls : Bool

/-! ## The key -/

/-- Digits without the zeros at their end. One digit stays. -/
def withoutZeros (digits : List Char) : List Char :=
  let shown := (digits.reverse.dropWhile (· = '0')).reverse
  if shown = [] then ['0'] else shown

/-- The four digits behind the point. -/
def fourDigits (n : Nat) : List Char :=
  [(n / 1000 % 10).digitChar, (n / 100 % 10).digitChar, (n / 10 % 10).digitChar,
    (n % 10).digitChar]

/-- The float of so many ten-thousandths as Python writes it, below 10 ^ 16. -/
def floatLetters (negative : Bool) (n : Nat) : List Char :=
  (if negative then ['-'] else []) ++
    (writeInt (n / 10000 : Nat) ++ '.' :: withoutZeros (fourDigits n))

theorem digitChar_lt : ∀ d < 10, d.digitChar.isDigit = true ∧
    ∀ e < 10, e.digitChar = d.digitChar → e = d := by decide

theorem isDigit_withoutZeros (n : Nat) : ∀ c ∈ withoutZeros (fourDigits n), c.isDigit = true := by
  intro c hc
  unfold withoutZeros at hc
  dsimp only at hc
  split at hc
  · rw [List.mem_singleton.mp hc]
    decide
  · have hmem := (List.dropWhile_sublist _).subset (List.mem_reverse.mp hc)
    have hfour := List.mem_reverse.mp hmem
    simp only [fourDigits, List.mem_cons, List.not_mem_nil, or_false] at hfour
    rcases hfour with rfl | rfl | rfl | rfl
    all_goals exact (digitChar_lt _ (by omega)).1

theorem numeric_floatLetters (negative : Bool) (n : Nat) :
    ∀ c ∈ floatLetters negative n, isNumeric c = true := by
  intro c hc
  rcases List.mem_append.mp hc with hsign | hc
  · cases negative with
    | false => cases hsign
    | true =>
      rw [List.mem_singleton.mp hsign]
      decide
  · rcases List.mem_append.mp hc with hwhole | hc
    · exact (numeric_writeInt _ c hwhole).1
    · rcases List.mem_cons.mp hc with rfl | hfraction
      · decide
      · simp [isNumeric, isDigit_withoutZeros n c hfraction]

/-- Four digits can be had back from those that are shown of them. -/
theorem take_withoutZeros (a b c d : Char) :
    (withoutZeros [a, b, c, d] ++ ['0', '0', '0', '0']).take 4 = [a, b, c, d] := by
  unfold withoutZeros
  by_cases hd : d = '0'
  · by_cases hc : c = '0'
    · by_cases hb : b = '0'
      · by_cases ha : a = '0'
        · simp [ha, hb, hc, hd]
        · simp [ha, hb, hc, hd]
      · simp [hb, hc, hd]
    · simp [hc, hd]
  · simp [hd]

theorem fourDigits_inj {m n : Nat}
    (h : withoutZeros (fourDigits m) = withoutZeros (fourDigits n)) : m % 10000 = n % 10000 := by
  have hdigits : fourDigits m = fourDigits n := by
    have htake := congrArg (fun l => (l ++ ['0', '0', '0', '0']).take 4) h
    unfold fourDigits at htake ⊢
    rwa [take_withoutZeros, take_withoutZeros] at htake
  have hone : ∀ i j : Nat, (i % 10).digitChar = (j % 10).digitChar → i % 10 = j % 10 :=
    fun i j heq => (digitChar_lt (j % 10) (by omega)).2 (i % 10) (by omega) heq
  unfold fourDigits at hdigits
  simp only [List.cons.injEq, and_true] at hdigits
  obtain ⟨hthousands, hhundreds, htens, hones⟩ := hdigits
  have := hone _ _ hthousands
  have := hone _ _ hhundreds
  have := hone _ _ htens
  have := hone _ _ hones
  omega

/-- Floats of so many ten-thousandths have their own texts. -/
theorem floatLetters_inj {b c : Bool} {m n : Nat} (h : floatLetters b m = floatLetters c n) :
    b = c ∧ m = n := by
  have hminus : ∀ k : Nat, (writeInt (k : Int)).head? ≠ some '-' := by
    intro k hhead
    have hmem := List.mem_of_mem_head? hhead
    unfold writeInt at hmem
    rw [if_neg (by omega)] at hmem
    exact absurd (isDigit_of_mem_toDigits hmem) (by decide)
  have hpoint : ∀ k : Nat, '.' ∉ writeInt (k : Int) := fun k hk =>
    absurd rfl (numeric_writeInt _ _ hk).2.1
  have hbody : ∀ {k l : Nat}, writeInt (k / 10000 : Nat) ++ '.' :: withoutZeros (fourDigits k) =
      writeInt (l / 10000 : Nat) ++ '.' :: withoutZeros (fourDigits l) → k = l := by
    intro k l heq
    obtain ⟨hwhole, hfraction⟩ := append_stop_inj (hpoint _) (hpoint _) heq
    have := Int.ofNat.inj (writeInt_inj hwhole)
    have := fourDigits_inj hfraction
    omega
  have hsign : ∀ k l, '-' :: (writeInt (k / 10000 : Nat) ++ '.' :: withoutZeros (fourDigits k)) ≠
      writeInt (l / 10000 : Nat) ++ '.' :: withoutZeros (fourDigits l) := by
    intro k l heq
    have hhead := congrArg List.head? heq
    rw [List.head?_append_of_ne_nil _ (writeInt_ne_nil _)] at hhead
    exact hminus _ hhead.symm
  unfold floatLetters at h
  cases b with
  | false =>
    cases c with
    | false => exact ⟨rfl, hbody h⟩
    | true => exact absurd h.symm (hsign n m)
  | true =>
    cases c with
    | false => exact absurd h (hsign m n)
    | true => exact ⟨rfl, hbody (List.cons.inj h).2⟩

/-- The text of such a float. -/
def rounded (negative : Bool) (n : Nat) : PyFloat where
  text := String.ofList (floatLetters negative n)
  numeric := by
    rw [String.toList_ofList]
    exact numeric_floatLetters negative n
  fraction := by
    rw [String.toList_ofList]
    exact Or.inl (List.mem_append_right _ (List.mem_append_right _ List.mem_cons_self))

/-- `round(temperature, 4)` -/
def temperatureData : Temperature → JsonValue
  | .int i => .int i
  | .float negative size _ => .float (rounded negative (halfEven (size * 10 ^ 4)))

def textData (text : Option String) : JsonValue := text.elim .null .str

def listData {α : Type} (data : α → JsonValue) (items : Option (List α)) : JsonValue :=
  items.elim .null fun items => .arr (items.map data)

def fieldsData (fields : Fields) : JsonValue := toJson (.dict fields.members)

def toolCallData (call : ToolCall) : JsonValue :=
  .obj [("id", .str call.id), ("name", .str call.name), ("arguments", fieldsData call.arguments)]

/-- `m.model_dump(exclude={"metadata"})` -/
def messageData (m : Message) : JsonValue :=
  .obj [("role", .str m.role.value), ("content", .str m.content), ("name", textData m.name),
    ("tool_call_id", textData m.toolCallId), ("tool_calls", listData toolCallData m.toolCalls),
    ("attachments", listData fieldsData m.attachments)]

/-- `model or self.default_model` -/
def modelOf (p : CachedProvider) (r : Request) : String :=
  match r.model with
  | some model => if model = "" then p.defaultModel else model
  | none => p.defaultModel

/-- `key_data` -/
def keyData (p : CachedProvider) (r : Request) : JsonValue :=
  .obj [("messages", .arr (r.messages.map messageData)), ("model", .str (modelOf p r)),
    ("temperature", temperatureData r.temperature),
    ("max_tokens", r.maxTokens.elim .null .int), ("tools", listData fieldsData r.tools),
    ("output_type", textData (r.outputType.map (·.name)))]

/-- The style of `json.dumps` by itself. -/
def spaced : Style where
  letter := writeChar
  gap := [' ']
  read := readChar_writeChar
  blank c hc := by
    rw [List.mem_singleton.mp hc]
    rfl

/-- `_cache_key` -/
def cacheKey (sha256 : Bytes → String) (p : CachedProvider) (r : Request) : String :=
  sha256 (encodeUtf8 (spaced.write (sorted (keyData p r))))

/-- The call goes through the cache. -/
def Cacheable (p : CachedProvider) (r : Request) : Prop := r.temperature.value ≤ p.maxTemp

instance (p : CachedProvider) (r : Request) : Decidable (Cacheable p r) :=
  inferInstanceAs (Decidable (_ ≤ _))

/-! ## What two requests have in common -/

/-- Tool calls that are equal, when their arguments are related. -/
structure CallBy (related : Fields → Fields → Prop) (c d : ToolCall) : Prop where
  id : c.id = d.id
  name : c.name = d.name
  arguments : related c.arguments d.arguments

/-- Messages that are equal but for their metadata, when their arguments and attachments are
related. -/
structure MessageBy (related : Fields → Fields → Prop) (m n : Message) : Prop where
  role : m.role = n.role
  content : m.content = n.content
  name : m.name = n.name
  toolCallId : m.toolCallId = n.toolCallId
  toolCalls : Option.Rel (List.Forall₂ (CallBy related)) m.toolCalls n.toolCalls
  attachments : Option.Rel (List.Forall₂ related) m.attachments n.attachments

/-- Requests that are equal for the provider. -/
structure SameRequest (p : CachedProvider) (r s : Request) : Prop where
  messages : List.Forall₂ (MessageBy SameFields) r.messages s.messages
  model : modelOf p r = modelOf p s
  temperature : r.temperature.value = s.temperature.value
  maxTokens : r.maxTokens = s.maxTokens
  tools : Option.Rel (List.Forall₂ SameFields) r.tools s.tools
  schema : Option.Rel Same (r.outputType.map (·.schema)) (s.outputType.map (·.schema))

/-- What is left of a temperature in the key. -/
def shownTemperature : Temperature → Int ⊕ (Bool × Nat)
  | .int i => .inl i
  | .float negative size _ => .inr (negative, halfEven (size * 10 ^ 4))

/-- Requests that the key does not tell apart. -/
structure Alike (p : CachedProvider) (r s : Request) : Prop where
  messages : List.Forall₂ (MessageBy ShownAlike) r.messages s.messages
  model : modelOf p r = modelOf p s
  temperature : shownTemperature r.temperature = shownTemperature s.temperature
  maxTokens : r.maxTokens = s.maxTokens
  tools : Option.Rel (List.Forall₂ ShownAlike) r.tools s.tools
  name : r.outputType.map (·.name) = s.outputType.map (·.name)

/-! ## What the key shows -/

theorem same_str_iff (a b : String) : Same (.str a) (.str b) ↔ a = b := by
  constructor
  · rintro ⟨⟩
    rfl
  · rintro rfl
    exact .str a

theorem same_arr_iff (xs ys : List JsonValue) :
    Same (.arr xs) (.arr ys) ↔ List.Forall₂ Same xs ys :=
  ⟨fun h => by cases h with | arr items => exact items, .arr⟩

/-- Dicts are the same when they are at their first key and behind it. -/
theorem same_obj_cons {key : String} {v w : JsonValue} {xs ys : List (String × JsonValue)}
    (hx : xs.lookup key = none) (hy : ys.lookup key = none) :
    Same (.obj ((key, v) :: xs)) (.obj ((key, w) :: ys)) ↔
      Same v w ∧ Same (.obj xs) (.obj ys) := by
  constructor
  · intro h
    cases h with
    | obj members =>
      constructor
      · have hkey := members key
        rw [List.lookup_cons_self, List.lookup_cons_self] at hkey
        cases hkey with
        | some hvw => exact hvw
      · refine .obj fun other => ?_
        by_cases heq : other = key
        · rw [heq, hx, hy]
          exact .none
        · have hother := members other
          have hbeq : (other == key) = false := by simpa using heq
          rwa [List.lookup_cons, List.lookup_cons, hbeq] at hother
  · rintro ⟨hvw, hrest⟩
    cases hrest with
    | obj members =>
      refine .obj fun other => ?_
      by_cases heq : other = key
      · rw [heq, List.lookup_cons_self, List.lookup_cons_self]
        exact .some hvw
      · have hbeq : (other == key) = false := by simpa using heq
        rw [List.lookup_cons, List.lookup_cons, hbeq]
        exact members other

theorem same_obj_nil : Same (.obj []) (.obj []) := .obj fun _ => .none

theorem same_textData_iff (a b : Option String) : Same (textData a) (textData b) ↔ a = b := by
  constructor
  · intro h
    cases a with
    | none =>
      cases b with
      | none => rfl
      | some y => cases h
    | some x =>
      cases b with
      | none => cases h
      | some y => rw [(same_str_iff x y).mp h]
  · rintro rfl
    cases a with
    | none => exact .null
    | some x => exact .str x

theorem same_listData_iff {α : Type} (data : α → JsonValue) (a b : Option (List α)) :
    Same (listData data a) (listData data b) ↔
      Option.Rel (List.Forall₂ fun x y => Same (data x) (data y)) a b := by
  have hitems : ∀ xs ys : List α, Same (.arr (xs.map data)) (.arr (ys.map data)) ↔
      List.Forall₂ (fun x y => Same (data x) (data y)) xs ys := by
    intro xs ys
    rw [same_arr_iff, List.forall₂_map_left_iff, List.forall₂_map_right_iff]
  constructor
  · intro h
    cases a with
    | none =>
      cases b with
      | none => exact .none
      | some ys => cases h
    | some xs =>
      cases b with
      | none => cases h
      | some ys => exact .some ((hitems xs ys).mp h)
  · rintro (h | -)
    · exact (hitems _ _).mpr h
    · exact .null

theorem same_toolCallData_iff (c d : ToolCall) :
    Same (toolCallData c) (toolCallData d) ↔ CallBy ShownAlike c d := by
  unfold toolCallData
  rw [same_obj_cons rfl rfl, same_obj_cons rfl rfl, same_obj_cons rfl rfl, same_str_iff,
    same_str_iff, and_iff_left same_obj_nil]
  constructor
  · rintro ⟨hid, hname, harguments⟩
    exact ⟨hid, hname, harguments⟩
  · rintro ⟨hid, hname, harguments⟩
    exact ⟨hid, hname, harguments⟩

theorem same_messageData_iff (m n : Message) :
    Same (messageData m) (messageData n) ↔ MessageBy ShownAlike m n := by
  unfold messageData
  iterate 6 rw [same_obj_cons rfl rfl]
  rw [same_str_iff, same_str_iff, same_textData_iff, same_textData_iff, same_listData_iff,
    same_listData_iff, and_iff_left same_obj_nil]
  simp only [same_toolCallData_iff]
  constructor
  · rintro ⟨hrole, hcontent, hname, hid, hcalls, hattachments⟩
    exact ⟨role_inj (congrArg String.toList hrole), hcontent, hname, hid, hcalls, hattachments⟩
  · rintro ⟨hrole, hcontent, hname, hid, hcalls, hattachments⟩
    exact ⟨by rw [hrole], hcontent, hname, hid, hcalls, hattachments⟩

theorem same_maxTokens_iff (a b : Option Int) :
    Same (a.elim .null .int) (b.elim .null .int) ↔ a = b := by
  constructor
  · intro h
    cases a with
    | none =>
      cases b with
      | none => rfl
      | some j => cases h
    | some i =>
      cases b with
      | none => cases h
      | some j =>
        cases h
        rfl
  · rintro rfl
    cases a with
    | none => exact .null
    | some i => exact .int i

theorem rounded_inj {b c : Bool} {m n : Nat} (h : rounded b m = rounded c n) : b = c ∧ m = n :=
  floatLetters_inj (String.ofList_inj.mp (congrArg PyFloat.text h))

theorem same_float_iff (x y : PyFloat) : Same (.float x) (.float y) ↔ x = y := by
  constructor
  · rintro ⟨⟩
    rfl
  · rintro rfl
    exact .float x

theorem same_temperature_iff (a b : Temperature) :
    Same (temperatureData a) (temperatureData b) ↔ shownTemperature a = shownTemperature b := by
  cases a with
  | int i =>
    cases b with
    | int j =>
      constructor
      · rintro ⟨⟩
        rfl
      · rintro ⟨⟩
        exact .int i
    | float =>
      constructor
      · rintro ⟨⟩
      · rintro ⟨⟩
  | float negative x hx =>
    cases b with
    | int j =>
      constructor
      · rintro ⟨⟩
      · rintro ⟨⟩
    | float negative' y hy =>
      unfold temperatureData shownTemperature
      rw [same_float_iff, Sum.inr.injEq, Prod.mk.injEq]
      constructor
      · exact rounded_inj
      · rintro ⟨hsign, hsize⟩
        rw [hsign, hsize]

/-- The data of two keys are the same exactly when the requests are alike. -/
theorem same_keyData_iff (p : CachedProvider) (r s : Request) :
    Same (keyData p r) (keyData p s) ↔ Alike p r s := by
  unfold keyData
  iterate 6 rw [same_obj_cons rfl rfl]
  rw [same_arr_iff, List.forall₂_map_left_iff, List.forall₂_map_right_iff, same_str_iff,
    same_temperature_iff, same_maxTokens_iff, same_listData_iff, same_textData_iff,
    and_iff_left same_obj_nil]
  simp only [same_messageData_iff]
  constructor
  · rintro ⟨hmessages, hmodel, htemperature, htokens, htools, hname⟩
    exact ⟨hmessages, hmodel, htemperature, htokens, htools, hname⟩
  · rintro ⟨hmessages, hmodel, htemperature, htokens, htools, hname⟩
    exact ⟨hmessages, hmodel, htemperature, htokens, htools, hname⟩

theorem distinct_items {α : Type} {data : α → JsonValue} (h : ∀ a, (data a).Distinct)
    (items : List α) : DistinctItems (items.map data) := by
  induction items with
  | nil => trivial
  | cons item items ih => exact ⟨h item, ih⟩

theorem distinct_listData {α : Type} {data : α → JsonValue} (h : ∀ a, (data a).Distinct)
    (items : Option (List α)) : (listData data items).Distinct := by
  cases items with
  | none => trivial
  | some items => exact distinct_items h items

theorem distinct_textData (text : Option String) : (textData text).Distinct := by
  cases text <;> trivial

theorem distinct_toolCallData (call : ToolCall) : (toolCallData call).Distinct := by
  have hkeys : ["id", "name", "arguments"].Nodup := by decide
  exact ⟨hkeys, trivial, trivial, call.arguments.distinct, trivial⟩

theorem distinct_messageData (m : Message) : (messageData m).Distinct := by
  have hkeys : ["role", "content", "name", "tool_call_id", "tool_calls", "attachments"].Nodup := by
    decide
  exact ⟨hkeys, trivial, trivial, distinct_textData m.name, distinct_textData m.toolCallId,
    distinct_listData distinct_toolCallData m.toolCalls,
    distinct_listData Fields.distinct m.attachments, trivial⟩

theorem distinct_keyData (p : CachedProvider) (r : Request) : (keyData p r).Distinct := by
  have htemperature : (temperatureData r.temperature).Distinct := by
    cases r.temperature <;> trivial
  have htokens : (r.maxTokens.elim JsonValue.null .int).Distinct := by
    cases r.maxTokens <;> trivial
  have hkeys :
      ["messages", "model", "temperature", "max_tokens", "tools", "output_type"].Nodup := by
    decide
  exact ⟨hkeys, distinct_items distinct_messageData r.messages, trivial, htemperature, htokens,
    distinct_listData Fields.distinct r.tools, distinct_textData _, trivial⟩

/-- Two requests have one key exactly when they are alike. -/
theorem cacheKey_eq_iff {sha256 : Bytes → String} (hsha : Function.Injective sha256)
    (p : CachedProvider) (r s : Request) :
    cacheKey sha256 p r = cacheKey sha256 p s ↔ Alike p r s := by
  rw [← same_keyData_iff]
  unfold cacheKey
  constructor
  · intro h
    have hends : commitments.Ends [] := by
      rintro c ⟨⟩
    have hsorted := (splits_write _).inj hends (encodeUtf8_injective (hsha h))
    exact same_of_sorted _ (distinct_keyData p r) (distinct_keyData p s) hsorted
  · intro h
    rw [sorted_of_same _ (distinct_keyData p r) (distinct_keyData p s) h]

/-! ## Requests that the key tells apart -/

/-- Two requests that go through the cache and have one key are equal for the provider. -/
def ToldApart (sha256 : Bytes → String) (p : CachedProvider) (r s : Request) : Prop :=
  Cacheable p r → Cacheable p s → cacheKey sha256 p r = cacheKey sha256 p s → SameRequest p r s

/-- What the key does not show in full: the temperature behind its fourth place, the schema of
the output type, and the values that JSON writes alike. -/
structure SameBeyondKey (r s : Request) : Prop where
  messages : List.Forall₂ (MessageBy SameFields) r.messages s.messages
  temperature : r.temperature.value = s.temperature.value
  tools : Option.Rel (List.Forall₂ SameFields) r.tools s.tools
  schema : Option.Rel Same (r.outputType.map (·.schema)) (s.outputType.map (·.schema))

theorem Alike.sameRequest {p : CachedProvider} {r s : Request} (h : Alike p r s)
    (hbeyond : SameBeyondKey r s) : SameRequest p r s :=
  ⟨hbeyond.messages, h.model, hbeyond.temperature, h.maxTokens, hbeyond.tools, hbeyond.schema⟩

/-- The key tells requests apart exactly when those that are alike are the same beyond it. -/
theorem told_apart_iff {sha256 : Bytes → String} (hsha : Function.Injective sha256)
    (p : CachedProvider) (r s : Request) :
    ToldApart sha256 p r s ↔
      (Cacheable p r → Cacheable p s → Alike p r s → SameBeyondKey r s) := by
  unfold ToldApart
  rw [cacheKey_eq_iff hsha]
  refine forall₂_congr fun _ _ => forall_congr' fun halike => ?_
  constructor
  · intro h
    exact ⟨h.messages, h.temperature, h.tools, h.schema⟩
  · intro h
    exact halike.sameRequest h

def userMessage (content : String) : Message :=
  ⟨.user, content, none, none, none, none, ⟨[], List.nodup_nil, trivial⟩⟩

def question (content : String) : Request :=
  ⟨[userMessage content], none, .int 0, none, none, none⟩

def half : Temperature := .float false (1 / 2) (by norm_num)

def aboveHalf : Temperature := .float false (1 / 2 + 1 / 2 ^ 20) (by norm_num)

def withTool (enum : PyValue) (h : (toJson enum).Distinct) : Request :=
  { question "hi" with tools := some [⟨[("enum", enum)], List.nodup_singleton _, h, trivial⟩] }

/-- Two questions are told apart. -/
theorem questions_are_told_apart :
    ToldApart replay.plainDigest ⟨"gpt-4o", 0, true⟩ (question "hi") (question "bye") := by
  refine (told_apart_iff replay.plainDigest_injective _ _ _).mpr fun _ _ halike => ?_
  cases halike.messages with
  | cons hmessage _ => exact absurd hmessage.content (by decide)

/-- Two classes of one name have one key, and so have two temperatures that are nearly the same
and a list and a tuple. -/
theorem schemas_and_fifth_places_are_mixed_up :
    ¬ ToldApart replay.plainDigest ⟨"gpt-4o", 0, true⟩
        { question "hi" with outputType := some ⟨"Result", .obj [("title", .str "Weather")]⟩ }
        { question "hi" with outputType := some ⟨"Result", .obj [("title", .str "Price")]⟩ } ∧
      ¬ ToldApart replay.plainDigest ⟨"gpt-4o", 1, true⟩
        { question "hi" with temperature := half }
        { question "hi" with temperature := aboveHalf } ∧
      ¬ ToldApart replay.plainDigest ⟨"gpt-4o", 0, true⟩
        (withTool (.list [.str "a"]) ⟨trivial, trivial⟩)
        (withTool (.tuple [.str "a"]) ⟨trivial, trivial⟩) := by
  refine ⟨?_, ?_, ?_⟩
  · intro h
    have hsame := h (by decide) (by decide) rfl
    cases hsame.schema with
    | some hschema =>
      have htitle := (same_str_iff _ _).mp ((same_obj_cons rfl rfl).mp hschema).1
      exact absurd htitle (by decide)
  · intro h
    have hkey : halfEven (1 / 2 * 10 ^ 4) = halfEven ((1 / 2 + 1 / 2 ^ 20) * 10 ^ 4) := by
      decide +kernel
    have hdata : temperatureData half = temperatureData aboveHalf := by
      unfold temperatureData half aboveHalf
      dsimp only
      rw [hkey]
    have hsame := h (by decide +kernel) (by decide +kernel) (by
      unfold cacheKey keyData
      dsimp only
      rw [hdata]
      rfl)
    exact absurd hsame.temperature (by decide +kernel)
  · intro h
    have hsame := h (by decide) (by decide) rfl
    cases hsame.tools with
    | some htools =>
      cases htools with
      | cons htool _ =>
        cases htool with
        | dict members =>
          have henum := members "enum"
          cases henum with
          | some hvalue => cases hvalue

/-! ## Values of JSON -/

mutual

/-- The value is one of JSON. -/
def PyValue.Plain : PyValue → Prop
  | .list items => PlainItems items
  | .dict members => PlainMembers members
  | .tuple _ | .other _ _ => False
  | _ => True

def PlainItems : List PyValue → Prop
  | [] => True
  | item :: items => item.Plain ∧ PlainItems items

def PlainMembers : List (String × PyValue) → Prop
  | [] => True
  | (_, value) :: members => value.Plain ∧ PlainMembers members

end

theorem lookup_toJsonMembers (members : List (String × PyValue)) (key : String) :
    (toJsonMembers members).lookup key = (members.lookup key).map toJson := by
  induction members with
  | nil => rfl
  | cons m members ih =>
    obtain ⟨k, v⟩ := m
    rw [toJsonMembers, List.lookup_cons, List.lookup_cons]
    split
    · rfl
    · exact ih

theorem plain_of_lookup {members : List (String × PyValue)} (h : PlainMembers members)
    {key : String} {v : PyValue} (hv : members.lookup key = some v) : v.Plain := by
  induction members with
  | nil => cases hv
  | cons m members ih =>
    obtain ⟨k, w⟩ := m
    rw [List.lookup_cons] at hv
    split at hv
    · cases hv
      exact h.1
    · exact ih h.2 hv

mutual

/-- Values of JSON are equal when they are written alike. -/
theorem sameValue_of_plain (v : PyValue) {w : PyValue} (hv : v.Plain) (hw : w.Plain)
    (h : Same (toJson v) (toJson w)) : SameValue v w := by
  match v with
  | .null =>
    cases w with
    | null => exact .null
    | tuple | other => exact hw.elim
    | _ => cases h
  | .bool b =>
    cases w with
    | bool c =>
      cases h
      exact .bool b
    | tuple | other => exact hw.elim
    | _ => cases h
  | .int i =>
    cases w with
    | int j =>
      cases h
      exact .int i
    | tuple | other => exact hw.elim
    | _ => cases h
  | .float x =>
    cases w with
    | float y =>
      cases h
      exact .float x
    | tuple | other => exact hw.elim
    | _ => cases h
  | .str s =>
    cases w with
    | str t =>
      cases h
      exact .str s
    | tuple | other => exact hw.elim
    | _ => cases h
  | .list xs =>
    cases w with
    | list ys => exact .list (sameItems_of_plain xs hv hw ((same_arr_iff _ _).mp h))
    | tuple | other => exact hw.elim
    | _ => cases h
  | .dict xs =>
    cases w with
    | dict ys =>
      cases h with
      | obj members =>
        refine .dict fun key => ?_
        have hkey := members key
        rw [lookup_toJsonMembers, lookup_toJsonMembers] at hkey
        exact sameMember_of_plain xs key hv (fun w hw' => plain_of_lookup hw hw') hkey
    | tuple | other => exact hw.elim
    | _ => cases h
  | .tuple _ => exact hv.elim
  | .other _ _ => exact hv.elim

theorem sameItems_of_plain (xs : List PyValue) {ys : List PyValue} (hx : PlainItems xs)
    (hy : PlainItems ys) (h : List.Forall₂ Same (toJsonItems xs) (toJsonItems ys)) :
    List.Forall₂ SameValue xs ys := by
  match xs, ys with
  | [], [] => exact .nil
  | x :: xs, y :: ys =>
    cases h with
    | cons hhead htail =>
      exact .cons (sameValue_of_plain x hx.1 hy.1 hhead) (sameItems_of_plain xs hx.2 hy.2 htail)

theorem sameMember_of_plain (xs : List (String × PyValue)) (key : String) {w : Option PyValue}
    (hx : PlainMembers xs) (hw : ∀ v, w = some v → v.Plain)
    (h : Option.Rel Same ((xs.lookup key).map toJson) (w.map toJson)) :
    Option.Rel SameValue (xs.lookup key) w := by
  match xs with
  | [] =>
    cases w with
    | none => exact .none
    | some v => cases h
  | (k, v) :: xs =>
    rw [List.lookup_cons] at h ⊢
    split at h
    · cases w with
      | none => cases h
      | some v' =>
        cases h with
        | some hsame => exact .some (sameValue_of_plain v hx.1 (hw v' rfl) hsame)
    · exact sameMember_of_plain xs key hx.2 hw h

end

theorem sameFields_of_plain {a b : Fields} (ha : PlainMembers a.members)
    (hb : PlainMembers b.members) (h : ShownAlike a b) : SameFields a b :=
  sameValue_of_plain (.dict a.members) ha hb h

/-- The arguments and the attachments are of JSON. -/
structure Message.Plain (m : Message) : Prop where
  arguments : ∀ call ∈ m.toolCalls.getD [], PlainMembers call.arguments.members
  attachments : ∀ attachment ∈ m.attachments.getD [], PlainMembers attachment.members

/-- The values of the messages and of the tools are of JSON. -/
structure Request.Plain (r : Request) : Prop where
  messages : ∀ m ∈ r.messages, m.Plain
  tools : ∀ tool ∈ r.tools.getD [], PlainMembers tool.members

theorem forall₂_of_plain {α : Type} {shown same : α → α → Prop} {plain : α → Prop}
    (h : ∀ x y, plain x → plain y → shown x y → same x y) {xs ys : List α}
    (hx : ∀ x ∈ xs, plain x) (hy : ∀ y ∈ ys, plain y) (hshown : List.Forall₂ shown xs ys) :
    List.Forall₂ same xs ys := by
  induction hshown with
  | nil => exact .nil
  | cons hhead _ ih =>
    rw [List.forall_mem_cons] at hx hy
    exact .cons (h _ _ hx.1 hy.1 hhead) (ih hx.2 hy.2)

theorem rel_of_plain {α : Type} {shown same : α → α → Prop} {plain : α → Prop}
    (h : ∀ x y, plain x → plain y → shown x y → same x y) {xs ys : Option (List α)}
    (hx : ∀ x ∈ xs.getD [], plain x) (hy : ∀ y ∈ ys.getD [], plain y)
    (hshown : Option.Rel (List.Forall₂ shown) xs ys) :
    Option.Rel (List.Forall₂ same) xs ys := by
  cases hshown with
  | none => exact .none
  | some hitems => exact .some (forall₂_of_plain h hx hy hitems)

theorem messageBy_of_plain (m n : Message) (hm : m.Plain) (hn : n.Plain)
    (h : MessageBy ShownAlike m n) : MessageBy SameFields m n where
  role := h.role
  content := h.content
  name := h.name
  toolCallId := h.toolCallId
  toolCalls := by
    refine rel_of_plain ?_ hm.arguments hn.arguments h.toolCalls
    intro c d hc hd hcall
    exact ⟨hcall.id, hcall.name, sameFields_of_plain hc hd hcall.arguments⟩
  attachments :=
    rel_of_plain (fun _ _ => sameFields_of_plain) hm.attachments hn.attachments h.attachments

/-- Of requests whose values are of JSON, the key leaves out the temperature behind its fourth
place and the schema of the output type, and nothing else. -/
theorem sameBeyondKey_iff_of_plain {p : CachedProvider} {r s : Request} (hr : r.Plain)
    (hs : s.Plain) (h : Alike p r s) :
    SameBeyondKey r s ↔
      r.temperature.value = s.temperature.value ∧
        Option.Rel Same (r.outputType.map (·.schema)) (s.outputType.map (·.schema)) := by
  constructor
  · intro hbeyond
    exact ⟨hbeyond.temperature, hbeyond.schema⟩
  · rintro ⟨htemperature, hschema⟩
    have hmessages := forall₂_of_plain messageBy_of_plain hr.messages hs.messages h.messages
    have htools := rel_of_plain (fun _ _ => sameFields_of_plain) hr.tools hs.tools h.tools
    exact ⟨hmessages, htemperature, htools, hschema⟩

/-! ## The answers of a run -/

section Runs

variable {R : Type} (kept : R → R) (callsTools : R → Bool) (sha256 : Bytes → String)
  (p : CachedProvider)

/-- What happens to the cache. Calls may overlap: a reply may come after any other event. -/
inductive Event (R : Type)
  /-- The provider has answered a request that was not in the cache. -/
  | reply (r : Request) (result : R)
  /-- An entry has run out, or is pushed out or deleted. -/
  | forget (key : String)

/-- `complete` up to the call of the provider: the answer that the cache has. -/
def lookup (cache : String → Option R) (r : Request) : Option R :=
  if Cacheable p r then cache (cacheKey sha256 p r) else none

/-- The rest of `complete`. `kept` is a response that a backend has written and read back. -/
def store (cache : String → Option R) (r : Request) (result : R) : String → Option R :=
  if Cacheable p r then
    if callsTools result ∧ ¬ p.cacheToolCalls then cache
    else Function.update cache (cacheKey sha256 p r) (some (kept result))
  else cache

def step (cache : String → Option R) : Event R → String → Option R
  | .reply r result => store kept callsTools sha256 p cache r result
  | .forget key => Function.update cache key none

/-- Each entry is the answer to a request that had its key. -/
def Answered (history : List (Event R)) (cache : String → Option R) : Prop :=
  ∀ key answer, cache key = some answer → ∃ r result, .reply r result ∈ history ∧
    Cacheable p r ∧ cacheKey sha256 p r = key ∧ kept result = answer

variable {kept callsTools sha256 p}

theorem answered_step {history : List (Event R)} {cache : String → Option R} (event : Event R)
    (h : Answered kept sha256 p history cache) :
    Answered kept sha256 p (history ++ [event])
      (step kept callsTools sha256 p cache event) := by
  have hold : ∀ key answer, cache key = some answer → ∃ r result,
      .reply r result ∈ history ++ [event] ∧ Cacheable p r ∧ cacheKey sha256 p r = key ∧
        kept result = answer := by
    intro key answer hkey
    obtain ⟨r, result, hmem, hrest⟩ := h key answer hkey
    exact ⟨r, result, List.mem_append_left _ hmem, hrest⟩
  intro key answer hkey
  cases event with
  | reply r result =>
    unfold step store at hkey
    dsimp only at hkey
    split at hkey
    · rename_i hcacheable
      split at hkey
      · exact hold key answer hkey
      · by_cases heq : key = cacheKey sha256 p r
        · rw [heq, Function.update_self] at hkey
          exact ⟨r, result, by simp, hcacheable, heq.symm, Option.some.inj hkey⟩
        · rw [Function.update_of_ne heq] at hkey
          exact hold key answer hkey
    · exact hold key answer hkey
  | forget forgotten =>
    unfold step at hkey
    dsimp only at hkey
    by_cases heq : key = forgotten
    · rw [heq, Function.update_self] at hkey
      cases hkey
    · rw [Function.update_of_ne heq] at hkey
      exact hold key answer hkey

theorem answered_run (events : List (Event R)) :
    Answered kept sha256 p events
      (events.foldl (step kept callsTools sha256 p) fun _ => none) := by
  induction events using List.reverseRecOn with
  | nil =>
    intro key answer hkey
    cases hkey
  | append_singleton events event ih =>
    rw [List.foldl_append]
    exact answered_step event ih

theorem answered_lookup (events : List (Event R)) {r : Request} {answer : R}
    (h : lookup sha256 p (events.foldl (step kept callsTools sha256 p) fun _ => none) r =
      some answer) :
    ∃ s result, .reply s result ∈ events ∧ Cacheable p s ∧
      cacheKey sha256 p s = cacheKey sha256 p r ∧ kept result = answer := by
  unfold lookup at h
  split at h
  · exact answered_run events _ _ h
  · cases h

/-- What a request gets from the cache is the answer to a request that is alike. -/
theorem answer_of_alike (hsha : Function.Injective sha256) (events : List (Event R))
    {r : Request} {answer : R}
    (h : lookup sha256 p (events.foldl (step kept callsTools sha256 p) fun _ => none) r =
      some answer) :
    ∃ s result, .reply s result ∈ events ∧ kept result = answer ∧ Cacheable p s ∧
      Alike p s r := by
  obtain ⟨s, result, hmem, hcacheable, hkey, hanswer⟩ := answered_lookup events h
  exact ⟨s, result, hmem, hanswer, hcacheable, (cacheKey_eq_iff hsha p s r).mp hkey⟩

/-- A question that is asked twice. -/
theorem a_question_is_answered_again :
    ∃ s result, .reply s result ∈ [Event.reply (question "hi") "hello"] ∧ id result = "hello" ∧
      Cacheable ⟨"gpt-4o", 0, true⟩ s ∧ Alike ⟨"gpt-4o", 0, true⟩ s (question "hi") := by
  have hcacheable : Cacheable ⟨"gpt-4o", 0, true⟩ (question "hi") := by decide
  have hlookup : lookup replay.plainDigest ⟨"gpt-4o", 0, true⟩
      ([Event.reply (question "hi") "hello"].foldl
        (step id (fun _ => false) replay.plainDigest ⟨"gpt-4o", 0, true⟩) fun _ => none)
      (question "hi") = some "hello" := by
    simp [lookup, step, store, hcacheable]
  exact answer_of_alike replay.plainDigest_injective _ hlookup

/-- Where the requests of a run that are alike are the same beyond the key, a request gets the
answer to its own kind from the cache, in every run. -/
theorem answer_of_same (hsha : Function.Injective sha256) (events : List (Event R))
    {r : Request} {answer : R}
    (hsame : ∀ s result, .reply s result ∈ events → Alike p s r → SameBeyondKey s r)
    (h : lookup sha256 p (events.foldl (step kept callsTools sha256 p) fun _ => none) r =
      some answer) :
    ∃ s result, .reply s result ∈ events ∧ kept result = answer ∧ SameRequest p s r := by
  obtain ⟨s, result, hmem, _, hkey, hanswer⟩ := answered_lookup events h
  have halike := (cacheKey_eq_iff hsha p s r).mp hkey
  exact ⟨s, result, hmem, hanswer, halike.sameRequest (hsame s result hmem halike)⟩

end Runs

end orchestra.response_cache
