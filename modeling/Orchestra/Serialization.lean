-- The values of the memory as msgpack (`memory/serialization.py`): datetimes and models go
-- as dicts with a tag, and a hook turns dicts with a tag back when they are read.
import Orchestra.Lib.Fallible
import Mathlib.Data.List.Forall2

open fallible

namespace orchestra.serialization

/-! ## The registered classes -/

/-- The classes of `SERIALIZATION_REGISTRY`, and `BaseModel` itself, which is not in it. -/
inductive ModelClass
  | agentResult
  | llmResponse
  | message
  | modelCost
  | send
  | streamChunk
  | tokenUsage
  | toolCall
  | toolCallRecord
  | toolResult
  | baseModel
deriving DecidableEq, Repr

/-- `obj.__class__.__module__` -/
def ModelClass.modulePath : ModelClass → String
  | .baseModel => "pydantic.main"
  | _ => "orchestra.core.types"

/-- `obj.__class__.__name__` -/
def ModelClass.className : ModelClass → String
  | .agentResult => "AgentResult"
  | .llmResponse => "LLMResponse"
  | .message => "Message"
  | .modelCost => "ModelCost"
  | .send => "Send"
  | .streamChunk => "StreamChunk"
  | .tokenUsage => "TokenUsage"
  | .toolCall => "ToolCall"
  | .toolCallRecord => "ToolCallRecord"
  | .toolResult => "ToolResult"
  | .baseModel => "BaseModel"

def serializationRegistry : List (String × ModelClass) :=
  [("orchestra.core.types.AgentResult", .agentResult),
    ("orchestra.core.types.LLMResponse", .llmResponse),
    ("orchestra.core.types.Message", .message),
    ("orchestra.core.types.ModelCost", .modelCost),
    ("orchestra.core.types.Send", .send),
    ("orchestra.core.types.StreamChunk", .streamChunk),
    ("orchestra.core.types.TokenUsage", .tokenUsage),
    ("orchestra.core.types.ToolCall", .toolCall),
    ("orchestra.core.types.ToolCallRecord", .toolCallRecord),
    ("orchestra.core.types.ToolResult", .toolResult)]

/-! ## The fields of the classes (`core/types.py`) -/

inductive Scalar
  | str
  | int
  | float
  | bool
  | oneOf (texts : List String)

/-- The declared type of a field. -/
inductive Shape
  | scalar (t : Scalar)
  | any
  | dict
  | list (item : Shape)
  | model (cls : ModelClass)

inductive Default
  | required
  | none
  | str (s : String)
  | int (i : Int)
  | float (bits : UInt64)
  | bool (b : Bool)
  | emptyList
  | emptyDict
  | newCallId

/-- A field, and whether its type has `| None`. -/
structure Field where
  name : String
  shape : Shape
  nullable : Bool
  default : Default

def messageRole : Scalar := .oneOf ["system", "user", "assistant", "tool"]

def finishReason : Scalar := .oneOf ["stop", "tool_calls", "length", "error", "safety"]

def ModelClass.fields : ModelClass → List Field
  | .agentResult =>
    [⟨"agent_name", .scalar .str, false, .required⟩,
      ⟨"output", .scalar .str, false, .str ""⟩,
      ⟨"structured_output", .model .baseModel, true, .none⟩,
      ⟨"messages", .list (.model .message), false, .emptyList⟩,
      ⟨"tool_calls_made", .list (.model .toolCallRecord), false, .emptyList⟩,
      ⟨"handoff_to", .scalar .str, true, .none⟩,
      ⟨"state_updates", .dict, false, .emptyDict⟩,
      ⟨"token_usage", .model .tokenUsage, true, .none⟩,
      ⟨"partial", .scalar .bool, false, .bool false⟩]
  | .llmResponse =>
    [⟨"content", .scalar .str, true, .none⟩,
      ⟨"tool_calls", .list (.model .toolCall), false, .emptyList⟩,
      ⟨"finish_reason", .scalar finishReason, false, .str "stop"⟩,
      ⟨"usage", .model .tokenUsage, true, .none⟩,
      ⟨"model", .scalar .str, false, .str ""⟩,
      ⟨"raw_response", .any, false, .none⟩]
  | .message =>
    [⟨"role", .scalar messageRole, false, .required⟩,
      ⟨"content", .scalar .str, false, .required⟩,
      ⟨"name", .scalar .str, true, .none⟩,
      ⟨"tool_call_id", .scalar .str, true, .none⟩,
      ⟨"tool_calls", .list (.model .toolCall), true, .none⟩,
      ⟨"attachments", .list .dict, true, .none⟩,
      ⟨"metadata", .dict, false, .emptyDict⟩]
  | .modelCost =>
    [⟨"input_cost_per_1k", .scalar .float, false, .float 0⟩,
      ⟨"output_cost_per_1k", .scalar .float, false, .float 0⟩]
  | .send =>
    [⟨"node", .scalar .str, false, .required⟩,
      ⟨"state", .dict, false, .emptyDict⟩]
  | .streamChunk =>
    [⟨"content", .scalar .str, false, .str ""⟩,
      ⟨"finish_reason", .scalar finishReason, true, .none⟩,
      ⟨"tool_calls", .list (.model .toolCall), false, .emptyList⟩,
      ⟨"model", .scalar .str, false, .str ""⟩]
  | .tokenUsage =>
    [⟨"input_tokens", .scalar .int, false, .int 0⟩,
      ⟨"output_tokens", .scalar .int, false, .int 0⟩,
      ⟨"total_tokens", .scalar .int, false, .int 0⟩,
      ⟨"estimated_cost_usd", .scalar .float, false, .float 0⟩]
  | .toolCall =>
    [⟨"id", .scalar .str, false, .newCallId⟩,
      ⟨"name", .scalar .str, false, .required⟩,
      ⟨"arguments", .dict, false, .emptyDict⟩]
  | .toolCallRecord =>
    [⟨"tool_call", .model .toolCall, false, .required⟩,
      ⟨"result", .scalar .str, false, .required⟩,
      ⟨"error", .scalar .str, true, .none⟩,
      ⟨"duration_ms", .scalar .float, false, .float 0⟩]
  | .toolResult =>
    [⟨"tool_call_id", .scalar .str, false, .required⟩,
      ⟨"name", .scalar .str, false, .required⟩,
      ⟨"content", .scalar .str, false, .required⟩,
      ⟨"error", .scalar .str, true, .none⟩,
      ⟨"metadata", .dict, false, .emptyDict⟩]
  | .baseModel => []

def ModelClass.field? (cls : ModelClass) (name : String) : Option Field :=
  cls.fields.find? (·.name = name)

/-- The type of a field. Other attributes have none. -/
def ModelClass.shapeOf (cls : ModelClass) (name : String) : Shape :=
  ((cls.field? name).map Field.shape).getD .any

/-! ## Values -/

/-- What msgpack has itself, without its lists and dicts. -/
inductive Primitive
  | none
  | bool (b : Bool)
  | int (i : Int)
  | float (bits : UInt64)
  | str (s : String)
  | bytes (b : List UInt8)
deriving DecidableEq, Repr

/-- A value with datetimes of type `D`. The role of a message is a text, as `MessageRole` is. -/
inductive Value (D : Type)
  | prim (p : Primitive)
  | list (items : List (Value D))
  | dict (entries : List (String × Value D))
  | datetime (d : D)
  | model (cls : ModelClass) (fields : List (String × Value D))

@[match_pattern] abbrev Value.str {D : Type} (s : String) : Value D := .prim (.str s)

@[match_pattern] abbrev Value.null {D : Type} : Value D := .prim .none

/-- What msgpack writes. -/
inductive Packed
  | prim (p : Primitive)
  | array (items : List Packed)
  | map (entries : List (String × Packed))

inductive UnpackError
  | keyError (key : String)
  | typeError
  | valueError
deriving DecidableEq, Repr

/-- What the code relies on: the texts of datetimes, what pydantic makes of a value in a
field of a scalar type, and the id of a new `ToolCall`. -/
structure Runtime (D : Type) where
  isoformat : D → String
  fromisoformat : String → Option D
  coerce : Scalar → Value D → Option (Value D)
  newCallId : String

def Scalar.Holds : Scalar → Primitive → Prop
  | .str, .str _ => True
  | .int, .int _ => True
  | .float, .float _ => True
  | .bool, .bool _ => True
  | .oneOf texts, .str s => s ∈ texts
  | _, _ => False

section serialization

variable {D : Type} (R : Runtime D)

/-! ## Writing -/

/-- The place of the items of a list. -/
def Shape.item : Shape → Shape
  | .list item => item
  | _ => .any

/-- `packb(value, default=_default)`. Within a model `model_dump` has turned the value into
plain dicts before, by the type `place` of its place. -/
def pack (place : Option Shape) : Value D → Packed
  | .prim p => .prim p
  | .list items => .array (packItems (place.map Shape.item) items)
  | .dict entries => .map (packEntries (place.map fun _ => .any) entries)
  | .datetime d => .map [("__type__", .prim (.str "datetime")),
      ("as_str", .prim (.str (R.isoformat d)))]
  | .model cls fields =>
    match place with
    | none => .map [("__type__", .prim (.str "pydantic")),
        ("module", .prim (.str cls.modulePath)), ("name", .prim (.str cls.className)),
        ("data", .map (packFields cls fields))]
    -- a field of type `BaseModel` is written with the fields of `BaseModel`
    | some (.model .baseModel) => .map []
    | some _ => .map (packFields cls fields)
where
  packItems (place : Option Shape) : List (Value D) → List Packed
    | [] => []
    | v :: rest => pack place v :: packItems place rest
  packEntries (place : Option Shape) : List (String × Value D) → List (String × Packed)
    | [] => []
    | (k, v) :: rest => (k, pack place v) :: packEntries place rest
  packFields (cls : ModelClass) : List (String × Value D) → List (String × Packed)
    | [] => []
    | (name, v) :: rest => (name, pack (some (cls.shapeOf name)) v) :: packFields cls rest

/-! ## Reading -/

def Default.value (newCallId : String) : Default → Option (Value D)
  | .required => .none
  | .none => some .null
  | .str s => some (.str s)
  | .int i => some (.prim (.int i))
  | .float bits => some (.prim (.float bits))
  | .bool b => some (.prim (.bool b))
  | .emptyList => some (.list [])
  | .emptyDict => some (.dict [])
  | .newCallId => some (.str newCallId)

/-- The fields of a class, of those that were given, or their defaults. -/
def assemble (cls : ModelClass) (given : List (String × Option (Value D))) :
    Option (List (String × Value D)) :=
  cls.fields.mapM fun f =>
    ((given.lookup f.name).getD (f.default.value R.newCallId)).map (f.name, ·)

/-- What pydantic makes of a value in a place of a type, or `none` for a `ValidationError`. -/
def validate (place : Shape) : Value D → Option (Value D)
  | .list items =>
    match place with
    | .any => some (.list items)
    | .list item => (validateItems item items).map .list
    | .scalar t => R.coerce t (.list items)
    | _ => none
  | .dict entries =>
    match place with
    | .any => some (.dict entries)
    | .dict => some (.dict entries)
    | .model cls => (assemble R cls (validateEntries cls entries)).map (.model cls)
    | .scalar t => R.coerce t (.dict entries)
    | _ => none
  | .model cls fields =>
    match place with
    | .any => some (.model cls fields)
    | .model declared =>
      if cls = declared ∨ declared = .baseModel then some (.model cls fields) else none
    | .scalar t => R.coerce t (.model cls fields)
    | _ => none
  | v =>
    match place with
    | .any => some v
    | .scalar t => R.coerce t v
    | _ => none
where
  validateItems (item : Shape) : List (Value D) → Option (List (Value D))
    | [] => some []
    | v :: rest => do
      let checked ← validate item v
      let later ← validateItems item rest
      pure (checked :: later)
  validateEntries (cls : ModelClass) :
      List (String × Value D) → List (String × Option (Value D))
    | [] => []
    | (name, v) :: rest =>
      (name, match cls.field? name with
        | some f =>
          match v, f.nullable with
          | .null, true => some .null
          | _, _ => validate f.shape v
        | none => none) :: validateEntries cls rest

/-- `obj.get(key, "")`, of a text. -/
def textAt (obj : List (String × Value D)) (key : String) : Option String :=
  match (obj.lookup key).getD (.str "") with
  | .str s => some s
  | _ => none

/-- `SERIALIZATION_REGISTRY.get(lookup_key)`. A value that is no text has a text that no
registered name begins or ends with. -/
def lookupClass (obj : List (String × Value D)) : Option ModelClass :=
  match textAt obj "module", textAt obj "name" with
  | some modulePath, some className =>
    serializationRegistry.lookup (modulePath ++ "." ++ className)
  | _, _ => none

/-- `obj.get("data", obj)` -/
def dataOf (obj : List (String × Value D)) : Value D := (obj.lookup "data").getD (.dict obj)

/-- `_object_hook`, of a dict. -/
def objectHook (obj : List (String × Value D)) : Except UnpackError (Value D) :=
  match obj.lookup "__type__" with
  | some (.str objType) =>
    if objType = "datetime" then
      match obj.lookup "as_str" with
      | some (.str text) =>
        match R.fromisoformat text with
        | some d => .ok (.datetime d)
        | none => .error .valueError
      | some _ => .error .typeError
      | none => .error (.keyError "as_str")
    else if objType = "pydantic" ∨ objType = "dataclass" then
      match lookupClass obj with
      | none => .ok (dataOf obj)
      | some cls =>
        if objType = "pydantic" then
          match obj.lookup "data" with
          | some data =>
            match validate R (.model cls) data with
            | some m => .ok m
            | none => .ok (dataOf obj)
          | none => .error (.keyError "data")
        -- no registered class is a dataclass
        else .ok (.dict obj)
    else .ok (.dict obj)
  | _ => .ok (.dict obj)

/-- `unpackb(data, object_hook=_object_hook)`, which calls the hook on the inner dicts first. -/
def unpack : Packed → Except UnpackError (Value D)
  | .prim p => .ok (.prim p)
  | .array items => do
    let items ← unpackItems items
    pure (.list items)
  | .map entries => do
    let obj ← unpackEntries entries
    objectHook R obj
where
  unpackItems : List Packed → Except UnpackError (List (Value D))
    | [] => .ok []
    | item :: rest => do
      let v ← unpack item
      let later ← unpackItems rest
      pure (v :: later)
  unpackEntries : List (String × Packed) → Except UnpackError (List (String × Value D))
    | [] => .ok []
    | (k, item) :: rest => do
      let v ← unpack item
      let later ← unpackEntries rest
      pure ((k, v) :: later)

/-! ## The values that are stored -/

/-- A value fits a type. A field of type `BaseModel` takes every model. -/
def Fits : Shape → Value D → Prop
  | .any, _ => True
  | .scalar t, v => ∃ p, v = .prim p ∧ t.Holds p
  | .dict, v => ∃ entries, v = .dict entries
  | .list item, v => ∃ items, v = .list items ∧ ∀ x ∈ items, Fits item x
  | .model declared, v =>
    ∃ cls fields, v = .model cls fields ∧ (cls = declared ∨ declared = .baseModel)

def FieldFits (f : Field) (v : Value D) : Prop := (f.nullable = true ∧ v = .null) ∨ Fits f.shape v

/-- A value of primitives, lists, dicts, datetimes and registered models: no dict has a key
twice, and each model has the fields of its class. -/
inductive Proper : Value D → Prop
  | prim (p : Primitive) : Proper (.prim p)
  | list {items : List (Value D)} (parts : ∀ v ∈ items, Proper v) : Proper (.list items)
  | dict {entries : List (String × Value D)} (distinct : (entries.map Prod.fst).Nodup)
    (parts : ∀ e ∈ entries, Proper e.2) : Proper (.dict entries)
  | datetime (d : D) : Proper (.datetime d)
  | model {cls : ModelClass} {fields : List (String × Value D)} (known : cls ≠ .baseModel)
    (fit : List.Forall₂ (fun f e => e.1 = f.name ∧ FieldFits f e.2) cls.fields fields)
    (parts : ∀ e ∈ fields, Proper e.2) : Proper (.model cls fields)

structure Storable (D : Type) where
  value : Value D
  proper : Proper value

/-! ## The values that come back -/

/-- The hook takes a dict for no other value: its tag is none of the three, or it has no
data and names no registered class, or it is tagged as a dataclass and names one. -/
def Untagged (obj : List (String × Value D)) : Prop :=
  ∀ objType, obj.lookup "__type__" = some (.str objType) → objType ≠ "datetime" ∧
    (objType = "pydantic" → lookupClass obj = none ∧ obj.lookup "data" = none) ∧
    (objType = "dataclass" → lookupClass obj = none → obj.lookup "data" = none)

/-- No dict of the value is taken for another value, and no model stands in a place of a
model whose type does not say which class it is of. -/
inductive Kept : Option Shape → Value D → Prop
  | prim {place : Option Shape} (p : Primitive) : Kept place (.prim p)
  | list {place : Option Shape} {items : List (Value D)}
    (parts : ∀ v ∈ items, Kept (place.map Shape.item) v) : Kept place (.list items)
  | dict {place : Option Shape} {entries : List (String × Value D)} (untagged : Untagged entries)
    (parts : ∀ e ∈ entries, Kept (place.map fun _ => .any) e.2) : Kept place (.dict entries)
  | datetime {place : Option Shape} (d : D) : Kept place (.datetime d)
  | model {place : Option Shape} {cls : ModelClass} {fields : List (String × Value D)}
    (typed : place ≠ some .any ∧ place ≠ some (.model .baseModel))
    (parts : ∀ e ∈ fields, Kept (some (cls.shapeOf e.1)) e.2) : Kept place (.model cls fields)

/-! ## Which types a value fits -/

theorem fits_prim {shape : Shape} {p : Primitive} (h : Fits shape (.prim p : Value D)) :
    shape = .any ∨ ∃ t, shape = .scalar t ∧ t.Holds p := by
  cases shape <;> simp_all [Fits]

theorem fits_datetime {shape : Shape} {d : D} (h : Fits shape (.datetime d)) : shape = .any := by
  cases shape <;> simp_all [Fits]

theorem fits_list {shape : Shape} {items : List (Value D)} (h : Fits shape (.list items)) :
    shape = .any ∨ ∃ item, shape = .list item ∧ ∀ x ∈ items, Fits item x := by
  cases shape <;> simp_all [Fits]

theorem fits_dict {shape : Shape} {entries : List (String × Value D)}
    (h : Fits shape (.dict entries)) : shape = .any ∨ shape = .dict := by
  cases shape <;> simp_all [Fits]

theorem fits_model {shape : Shape} {cls : ModelClass} {fields : List (String × Value D)}
    (h : Fits shape (.model cls fields)) :
    shape = .any ∨ shape = .model cls ∨ shape = .model .baseModel := by
  cases shape with
  | any => exact Or.inl rfl
  | model declared =>
    obtain ⟨c, fs, hm, hdeclared⟩ := h
    cases hm
    rcases hdeclared with rfl | rfl
    · exact Or.inr (Or.inl rfl)
    · exact Or.inr (Or.inr rfl)
  | scalar t => simp [Fits] at h
  | dict => simp [Fits] at h
  | list item => simp [Fits] at h

/-! ## Lists and entries -/

theorem sizeOf_entry_lt {entries : List (String × Value D)} {e : String × Value D}
    (he : e ∈ entries) : sizeOf e.2 < sizeOf entries := by
  have hlt := List.sizeOf_lt_of_mem he
  have hpart : sizeOf e.2 < sizeOf e := by
    rcases e with ⟨k, v⟩
    simp only [Prod.mk.sizeOf_spec]
    omega
  omega

theorem Value.parts_induction {P : Value D → Prop} (prim : ∀ p, P (.prim p))
    (list : ∀ items, (∀ v ∈ items, P v) → P (.list items))
    (dict : ∀ entries, (∀ e ∈ entries, P e.2) → P (.dict entries))
    (datetime : ∀ d, P (.datetime d))
    (model : ∀ cls fields, (∀ e ∈ fields, P e.2) → P (.model cls fields)) (v : Value D) : P v := by
  match v with
  | .prim p => exact prim p
  | .list items => exact list items fun x hx => parts_induction prim list dict datetime model x
  | .dict entries =>
    exact dict entries fun e he => parts_induction prim list dict datetime model e.2
  | .datetime d => exact datetime d
  | .model cls fields =>
    exact model cls fields fun e he => parts_induction prim list dict datetime model e.2
termination_by sizeOf v
decreasing_by
  · have hlt := List.sizeOf_lt_of_mem hx
    simp only [Value.list.sizeOf_spec]
    omega
  · have hlt := sizeOf_entry_lt he
    simp only [Value.dict.sizeOf_spec]
    omega
  · have hlt := sizeOf_entry_lt he
    simp only [Value.model.sizeOf_spec]
    omega

theorem packItems_eq (place : Option Shape) (items : List (Value D)) :
    pack.packItems R place items = items.map (pack R place) := by
  induction items with
  | nil => simp [pack.packItems]
  | cons v rest ih => simp [pack.packItems, ih]

theorem packEntries_eq (place : Option Shape) (entries : List (String × Value D)) :
    pack.packEntries R place entries = entries.map fun e => (e.1, pack R place e.2) := by
  induction entries with
  | nil => simp [pack.packEntries]
  | cons e rest ih => simp [pack.packEntries, ih]

theorem packFields_eq (cls : ModelClass) (fields : List (String × Value D)) :
    pack.packFields R cls fields =
      fields.map fun e => (e.1, pack R (some (cls.shapeOf e.1)) e.2) := by
  induction fields with
  | nil => simp [pack.packFields]
  | cons e rest ih => simp [pack.packFields, ih]

theorem unpackItems_iff {items : List Packed} {values : List (Value D)} :
    unpack.unpackItems R items = .ok values ↔
      List.Forall₂ (fun item v => unpack R item = .ok v) items values := by
  induction items generalizing values with
  | nil => simp [unpack.unpackItems, eq_comm]
  | cons item rest ih =>
    simp only [unpack.unpackItems, bind_eq_ok_iff, List.forall₂_cons_left_iff]
    constructor
    · rintro ⟨v, hv, later, hlater, h⟩
      exact ⟨v, later, hv, ih.mp hlater, (Except.ok.inj h).symm⟩
    · rintro ⟨v, later, hv, hlater, rfl⟩
      exact ⟨v, hv, later, ih.mpr hlater, rfl⟩

theorem unpackEntries_iff {entries : List (String × Packed)} {obj : List (String × Value D)} :
    unpack.unpackEntries R entries = .ok obj ↔
      List.Forall₂ (fun e o => o.1 = e.1 ∧ unpack R e.2 = .ok o.2) entries obj := by
  induction entries generalizing obj with
  | nil => simp [unpack.unpackEntries, eq_comm]
  | cons e rest ih =>
    rcases e with ⟨k, item⟩
    simp only [unpack.unpackEntries, bind_eq_ok_iff, List.forall₂_cons_left_iff]
    constructor
    · rintro ⟨v, hv, later, hlater, h⟩
      exact ⟨(k, v), later, ⟨rfl, hv⟩, ih.mp hlater, (Except.ok.inj h).symm⟩
    · rintro ⟨⟨_, v⟩, later, ⟨rfl, hv⟩, hlater, rfl⟩
      exact ⟨v, hv, later, ih.mpr hlater, rfl⟩

theorem validateItems_iff {item : Shape} {values checked : List (Value D)} :
    validate.validateItems R item values = some checked ↔
      List.Forall₂ (fun v c => validate R item v = some c) values checked := by
  induction values generalizing checked with
  | nil => simp [validate.validateItems, eq_comm]
  | cons v rest ih =>
    simp only [validate.validateItems, Option.bind_eq_bind, Option.bind_eq_some_iff,
      List.forall₂_cons_left_iff]
    constructor
    · rintro ⟨c, hc, later, hlater, h⟩
      exact ⟨c, later, hc, ih.mp hlater, (Option.some.inj h).symm⟩
    · rintro ⟨c, later, hc, hlater, rfl⟩
      exact ⟨c, hc, later, ih.mpr hlater, rfl⟩

/-! ## The hook -/

theorem validate_model {cls : ModelClass} {data m : Value D}
    (h : validate R (.model cls) data = some m) : ∃ c fields, m = .model c fields := by
  cases data with
  | prim p => simp [validate] at h
  | list items => simp [validate] at h
  | datetime d => simp [validate] at h
  | dict entries =>
    simp only [validate, Option.map_eq_some_iff] at h
    obtain ⟨fields, -, rfl⟩ := h
    exact ⟨cls, fields, rfl⟩
  | model c fields =>
    simp only [validate] at h
    split at h
    · exact ⟨c, fields, (Option.some.inj h).symm⟩
    · nomatch h

theorem dataOf_cases (obj : List (String × Value D)) :
    (dataOf obj = .dict obj ∧ obj.lookup "data" = none) ∨
      obj.lookup "data" = some (dataOf obj) := by
  unfold dataOf
  cases h : obj.lookup "data" with
  | none => exact Or.inl ⟨rfl, rfl⟩
  | some data => exact Or.inr rfl

/-- What the hook makes of a dict: the dict itself, a datetime, a model, or its data. -/
theorem hook_cases {obj : List (String × Value D)} {r : Value D}
    (h : objectHook R obj = .ok r) :
    (r = .dict obj ∧ Untagged obj) ∨ (∃ d, r = .datetime d) ∨
      (∃ cls fields, r = .model cls fields) ∨ obj.lookup "data" = some r := by
  unfold objectHook at h
  split at h
  · rename_i objType htag
    have huntagged (hdatetime : objType ≠ "datetime")
        (hpydantic : objType = "pydantic" → lookupClass obj = none ∧ obj.lookup "data" = none)
        (hdataclass : objType = "dataclass" → lookupClass obj = none →
          obj.lookup "data" = none) : Untagged obj := by
      intro other hother
      obtain rfl : objType = other := by simpa [htag] using hother
      exact ⟨hdatetime, hpydantic, hdataclass⟩
    by_cases hdatetime : objType = "datetime"
    · rw [if_pos hdatetime] at h
      split at h
      · split at h
        · exact Or.inr (Or.inl ⟨_, (Except.ok.inj h).symm⟩)
        · nomatch h
      · nomatch h
      · nomatch h
    rw [if_neg hdatetime] at h
    by_cases htagged : objType = "pydantic" ∨ objType = "dataclass"
    · rw [if_pos htagged] at h
      split at h
      · rename_i hmiss
        obtain rfl := Except.ok.inj h
        rcases dataOf_cases obj with ⟨hself, hdata⟩ | hdata
        · exact Or.inl ⟨hself, huntagged hdatetime (fun _ => ⟨hmiss, hdata⟩) fun _ _ => hdata⟩
        · exact Or.inr (Or.inr (Or.inr hdata))
      · rename_i cls hcls
        by_cases hpydantic : objType = "pydantic"
        · rw [if_pos hpydantic] at h
          split at h
          · rename_i data hdata
            split at h
            · rename_i m hm
              obtain rfl := Except.ok.inj h
              exact Or.inr (Or.inr (Or.inl (validate_model R hm)))
            · obtain rfl := Except.ok.inj h
              rcases dataOf_cases obj with ⟨-, hnone⟩ | hsome
              · rw [hdata] at hnone
                nomatch hnone
              · exact Or.inr (Or.inr (Or.inr hsome))
          · nomatch h
        · rw [if_neg hpydantic] at h
          refine Or.inl ⟨(Except.ok.inj h).symm, huntagged hdatetime ?_ ?_⟩
          · intro hp
            exact absurd hp hpydantic
          · intro _ hmiss
            rw [hcls] at hmiss
            nomatch hmiss
    · rw [if_neg htagged] at h
      refine Or.inl ⟨(Except.ok.inj h).symm, huntagged hdatetime ?_ ?_⟩
      · intro hp
        exact absurd (Or.inl hp) htagged
      · intro hd
        exact absurd (Or.inr hd) htagged
  · rename_i hother
    refine Or.inl ⟨(Except.ok.inj h).symm, ?_⟩
    intro objType htag
    exact absurd htag (hother objType)

theorem hook_of_untagged {obj : List (String × Value D)} (h : Untagged obj) :
    objectHook R obj = .ok (.dict obj) := by
  unfold objectHook
  split
  · rename_i objType htag
    obtain ⟨hdatetime, hpydantic, hdataclass⟩ := h objType htag
    rw [if_neg hdatetime]
    by_cases htagged : objType = "pydantic" ∨ objType = "dataclass"
    · rw [if_pos htagged]
      have hdata (hmiss : lookupClass obj = none) : dataOf obj = .dict obj := by
        have hnone : obj.lookup "data" = none :=
          htagged.elim (fun hp => (hpydantic hp).2) fun hd => hdataclass hd hmiss
        unfold dataOf
        rw [hnone]
        rfl
      split
      · rename_i hmiss
        rw [hdata hmiss]
      · rename_i cls hcls
        have hnot : objType ≠ "pydantic" := by
          intro hp
          rw [(hpydantic hp).1] at hcls
          nomatch hcls
        rw [if_neg hnot]
    · rw [if_neg htagged]
  · rfl

/-- A dict without a tag is read as it is. -/
theorem untagged_of_lookup {obj : List (String × Value D)} (h : obj.lookup "__type__" = none) :
    Untagged obj := by
  intro objType htag
  rw [h] at htag
  nomatch htag

/-! ## The names of fields -/

theorem nodup_fieldNames (cls : ModelClass) : (cls.fields.map Field.name).Nodup := by
  cases cls <;> decide

/-- No class has a field of these names, which the hook reads. -/
theorem not_mem_fieldNames (cls : ModelClass) :
    "__type__" ∉ cls.fields.map Field.name ∧ "data" ∉ cls.fields.map Field.name := by
  cases cls <;> decide

theorem field?_of_mem {cls : ModelClass} {f : Field} (hf : f ∈ cls.fields) :
    cls.field? f.name = some f := by
  unfold ModelClass.field?
  have hdistinct := nodup_fieldNames cls
  generalize cls.fields = fields at hf hdistinct
  induction fields with
  | nil => nomatch hf
  | cons g rest ih =>
    obtain ⟨hnew, hrest⟩ := List.nodup_cons.mp hdistinct
    rcases List.mem_cons.mp hf with rfl | hf
    · simp
    · have hne : g.name ≠ f.name := by
        intro heq
        exact hnew (heq ▸ List.mem_map_of_mem hf)
      rw [List.find?_cons_of_neg (by simpa using hne)]
      exact ih hf hrest

theorem shapeOf_of_mem {cls : ModelClass} {f : Field} (hf : f ∈ cls.fields) :
    cls.shapeOf f.name = f.shape := by
  unfold ModelClass.shapeOf
  rw [field?_of_mem hf]
  rfl

theorem lookup_none_of_keys {α : Type} {obj : List (String × α)} {k : String}
    (hk : k ∉ obj.map Prod.fst) : obj.lookup k = none := by
  rw [List.lookup_eq_none_iff]
  intro e he
  have hne : k ≠ e.1 := by
    rintro rfl
    exact hk (List.mem_map_of_mem he)
  simpa using hne

/-- A dict with the fields of a class is read as it is, and has no data. -/
theorem fields_untagged {cls : ModelClass} {obj : List (String × Value D)}
    (hkeys : obj.map Prod.fst = cls.fields.map Field.name) :
    Untagged obj ∧ obj.lookup "data" = none := by
  obtain ⟨htype, hdata⟩ := not_mem_fieldNames cls
  rw [← hkeys] at htype hdata
  exact ⟨untagged_of_lookup (lookup_none_of_keys htype), lookup_none_of_keys hdata⟩

end serialization

end orchestra.serialization
