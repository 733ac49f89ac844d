-- The schema that Gemini takes (`providers/_gemini_schema.py`): references are replaced by what
-- they name, an option becomes `nullable`, and keys that Gemini refuses are left out.
import Mathlib.Logic.Relation
import Orchestra.Lib.Descent
import Orchestra.Lib.Dict
import Orchestra.Lib.Text

open descents dicts texts

namespace orchestra.gemini_schema

/-! ## Schemas -/

/-- A value of JSON. A number is held by its text and by whether it is not zero. -/
inductive Json
  | null
  | bool (b : Bool)
  | number (text : String) (nonzero : Bool)
  | str (s : String)
  | list (items : List Json)
  | dict (members : List (String × Json))

namespace Json

/-- `bool(v)` -/
def truthy : Json → Bool
  | null => false
  | bool b => b
  | number _ nonzero => nonzero
  | str s => s ≠ ""
  | list items => !items.isEmpty
  | dict members => !members.isEmpty

/-- `v.get(key)` of a dict. -/
def get? (v : Json) (key : String) : Option Json :=
  match v with
  | dict members => members.lookup key
  | _ => none

def isDict : Json → Bool
  | dict _ => true
  | _ => false

end Json

/-- A `GeminiSchemaError`, the error of Python for a value that is not of the kind it is used as,
or the `RecursionError` of a recursion that got too deep. -/
inductive Failure
  | geminiSchemaError (message : String)
  | typeError
  | recursionError

/-- `_BANNED_KEYS` -/
def bannedKeys : List String :=
  ["additionalProperties", "$defs", "$ref", "title", "description", "default"]

/-- The keywords that the module says Gemini does not accept. -/
def notAccepted : List String :=
  ["$defs", "$ref", "additionalProperties", "title", "description", "anyOf", "oneOf", "allOf",
    "const", "pattern", "minLength", "default"]

/-! ## The conversion -/

variable (repr : Json → String) (defs : List (String × Json))

/-- What a `$ref` names. -/
def resolve : Json → Except Failure Json
  | .str ref =>
    if startsWith ref "#/$defs/" then
      match defs.lookup (after ref "#/$defs/") with
      | none | some .null => .error (.geminiSchemaError ("dangling $ref: " ++ ref))
      | some target => .ok target
    else .error (.geminiSchemaError ("unsupported $ref: " ++ ref))
  | _ => .error .typeError

/-- `v.get("type") == "null"` -/
def isNull (v : Json) : Bool :=
  match v.get? "type" with
  | some (.str s) => s = "null"
  | _ => false

/-- The one variant of an `anyOf` that is not null, where there is one other variant. -/
def optional : Json → Except Failure Json
  | .list variants =>
    if variants.all Json.isDict then
      match variants, variants.filter (fun v => !isNull v) with
      | [_, _], [v] => .ok v
      | _, _ =>
        .error (.geminiSchemaError ("unsupported anyOf shape: " ++ repr (.list variants)))
    else .error .typeError
  | _ => .error .typeError

/-- `{p.get("type") for p in prefix if isinstance(p, dict)}`, as a list. `none` is for `None`. -/
def typesOf : List Json → Except Failure (List (Option String))
  | [] => .ok []
  | p :: rest =>
    match p.isDict, p.get? "type", typesOf rest with
    | false, _, types => types
    | _, none, .ok types | _, some .null, .ok types => .ok (none :: types)
    | _, some (.str s), .ok types => .ok (some s :: types)
    | _, _, _ => .error .typeError

/-- The item that stands for all of a `prefixItems`. -/
def sharedItem : Json → Except Failure Json
  | .list (first :: second :: rest) =>
    match typesOf (first :: second :: rest) with
    | .error e => .error e
    | .ok types =>
      if 1 < types.eraseDups.length then
        .error (.geminiSchemaError ("Heterogeneous prefixItems tuple cannot be expressed in " ++
          "Gemini schema: " ++ repr (.list (first :: second :: rest))))
      else .ok first
  | .list items =>
    .error (.geminiSchemaError ("prefixItems tuple must have at least 2 elements, got " ++
      repr (.list items)))
  | _ => .error .typeError

/-- `_strip` -/
def strip (d : List (String × Json)) : List (String × Json) :=
  d.filter fun e => !bannedKeys.elem e.1

/-- `out.setdefault(k, v)` -/
def setDefault (out : List (String × Json)) (e : String × Json) : List (String × Json) :=
  if (out.lookup e.1).isSome then out else out ++ [e]

section

variable (convert : Json → Except Failure Json)

/-- The properties, each of them converted. -/
def convertAll : List (String × Json) → Except Failure (List (String × Json))
  | [] => .ok []
  | (pk, pv) :: rest =>
    match convert pv with
    | .error e => .error e
    | .ok v =>
      match convertAll rest with
      | .error e => .error e
      | .ok out => .ok ((pk, v) :: out)

/-- One field of a node, which is not banned. -/
def convertField (k : String) (v : Json) : Except Failure Json :=
  match k, v with
  | "properties", .dict properties =>
    match convertAll convert properties with
    | .error e => .error e
    | .ok out => .ok (.dict out)
  | "items", v => convert v
  | _, v => .ok v

/-- The loop over the fields of a node. -/
def convertFields : List (String × Json) → Except Failure (List (String × Json))
  | [] => .ok []
  | (k, v) :: rest =>
    if bannedKeys.elem k then convertFields rest
    else
      match convertField convert k v with
      | .error e => .error e
      | .ok v =>
        match convertFields rest with
        | .error e => .error e
        | .ok out => .ok ((k, v) :: out)

/-- An option: the schema of the variant with `nullable`, and the fields beside the `anyOf`. -/
def nullable (node : List (String × Json)) : Json → Except Failure Json
  | .dict converted =>
    let beside := node.filter fun e => e.1 ≠ "anyOf"
    .ok (.dict (strip (beside.foldl setDefault (setEntries "nullable" (.bool true) converted))))
  | _ => .error .typeError

/-- An array with the item type of a tuple. -/
def flatArray (out : List (String × Json)) (item : Json) : List (String × Json) :=
  let out := setEntries "type" (.str "array") (out.filter fun e => e.1 ≠ "prefixItems")
  if item.truthy then setEntries "items" item out else out

/-- `_convert` of a dict. -/
def convertNode (node : List (String × Json)) : Except Failure Json :=
  match node.lookup "$ref" with
  | some ref =>
    match resolve defs ref with
    | .error e => .error e
    | .ok target => convert target
  | none =>
    match node.lookup "anyOf" with
    | some variants =>
      match optional repr variants with
      | .error e => .error e
      | .ok v =>
        match convert v with
        | .error e => .error e
        | .ok converted => nullable node converted
    | none =>
      match convertFields convert node with
      | .error e => .error e
      | .ok out =>
        match node.lookup "prefixItems" with
        | none => .ok (.dict out)
        | some items =>
          match sharedItem repr items with
          | .error e => .error e
          | .ok first =>
            match convert first with
            | .error e => .error e
            | .ok item => .ok (.dict (flatArray out item))

end

/-- `_convert`, on a stack that holds so many calls. -/
def convert : Nat → Json → Except Failure Json
  | 0, _ => .error .recursionError
  | depth + 1, .dict node => convertNode repr defs (convert depth) node
  | _ + 1, v => .ok v

/-- `raw.get("$defs", {})` -/
def defsOf (raw : Json) : List (String × Json) :=
  match raw.get? "$defs" with
  | some (.dict defs) => defs
  | _ => []

/-- `pydantic_to_gemini_schema`, from the JSON schema of the model on. -/
def toGeminiSchema (depth : Nat) (raw : Json) : Except Failure Json :=
  convert repr (defsOf raw) depth raw

/-! ## The calls of a node -/

/-- The calls that the loop over the fields makes for one of them. -/
def fieldCalls (e : String × Json) : List Json :=
  if bannedKeys.elem e.1 then []
  else
    match e.1, e.2 with
    | "properties", .dict properties => properties.map Prod.snd
    | "items", v => [v]
    | _, _ => []

/-- The calls of `_convert` for a node, in their order. -/
def callsOf : Json → List Json
  | .dict node =>
    match node.lookup "$ref" with
    | some ref => (resolve defs ref).toOption.toList
    | none =>
      match node.lookup "anyOf" with
      | some variants => (optional repr variants).toOption.toList
      | none =>
        node.flatMap fieldCalls ++
          match node.lookup "prefixItems" with
          | some items => (sharedItem repr items).toOption.toList
          | none => []
  | _ => []

/-- The node itself is refused, whatever is below it. -/
def refused : Json → Bool
  | .dict node =>
    match node.lookup "$ref" with
    | some ref => (resolve defs ref).toOption.isNone
    | none =>
      match node.lookup "anyOf" with
      | some variants => (optional repr variants).toOption.isNone
      | none =>
        match node.lookup "prefixItems" with
        | some items => (sharedItem repr items).toOption.isNone
        | none => false
  | _ => false

/-! ## What is in a schema -/

/-- The schemas in one field of a node. -/
def under (e : String × Json) : List Json :=
  if ["items", "propertyNames", "additionalProperties"].elem e.1 then [e.2]
  else
    match e.2 with
    | .dict members =>
      if ["properties", "patternProperties", "$defs"].elem e.1 then members.map Prod.snd else []
    | .list items => if ["anyOf", "oneOf", "allOf", "prefixItems"].elem e.1 then items else []
    | _ => []

def schemasIn : Json → List Json
  | .dict node => node.flatMap under
  | _ => []

/-- The schema has this node, at some depth. -/
def HasNode : Json → Json → Prop := Relation.ReflTransGen fun v c => c ∈ schemasIn v

/-- The node has a keyword that is not accepted. -/
def HasBadKey : Json → Prop
  | .dict node => ∃ e ∈ node, e.1 ∈ notAccepted
  | _ => False

/-- No node at any depth has a keyword that is not accepted. -/
def Clean (v : Json) : Prop := ∀ node, HasNode v node → ¬ HasBadKey node

/-- The field is accepted, and so is all that is in it. -/
def FieldClean (e : String × Json) : Prop := e.1 ∉ notAccepted ∧ ∀ c ∈ under e, Clean c

theorem clean_iff (v : Json) : Clean v ↔ ¬ HasBadKey v ∧ ∀ c ∈ schemasIn v, Clean c := by
  constructor
  · intro h
    refine ⟨h v .refl, fun c hc node hnode => h node (.head hc hnode)⟩
  · rintro ⟨hkey, hbelow⟩ node hnode
    rcases Relation.ReflTransGen.cases_head hnode with rfl | ⟨c, hc, hrest⟩
    · exact hkey
    · exact hbelow c hc node hrest

theorem clean_dict_iff (node : List (String × Json)) :
    Clean (.dict node) ↔ ∀ e ∈ node, FieldClean e := by
  rw [clean_iff]
  unfold HasBadKey schemasIn FieldClean
  constructor
  · rintro ⟨hkey, hbelow⟩ e he
    exact ⟨fun hbad => hkey ⟨e, he, hbad⟩, fun c hc => hbelow c (List.mem_flatMap.mpr ⟨e, he, hc⟩)⟩
  · intro h
    refine ⟨fun ⟨e, he, hbad⟩ => (h e he).1 hbad, fun c hc => ?_⟩
    obtain ⟨e, he, hc⟩ := List.mem_flatMap.mp hc
    exact (h e he).2 c hc

theorem clean_of_not_dict {v : Json} (h : v.isDict = false) : Clean v := by
  rw [clean_iff]
  cases v with
  | dict node => cases h
  | _ => exact ⟨id, fun c hc => by cases hc⟩

/-! ## Schemas of pydantic -/

/-- The fields of a node are of the kinds that pydantic gives them: each key stands there once, a
reference is a text, the variants of a union and the items of a tuple are schemas, and beside a
union there are no other schemas. -/
structure Shaped (node : List (String × Json)) : Prop where
  nodup : (node.map Prod.fst).Nodup
  ref : ∀ ref, node.lookup "$ref" = some ref → ∃ s, ref = .str s
  anyOf : ∀ variants, node.lookup "anyOf" = some variants →
    ∃ vs, variants = .list vs ∧ vs.all Json.isDict = true
  beside : (node.lookup "anyOf").isSome → ∀ e ∈ node, e.1 ≠ "anyOf" → e.1 ∉ bannedKeys →
    under e = []
  prefixItems : ∀ items, node.lookup "prefixItems" = some items →
    ∃ ps, items = .list ps ∧ ∀ p ∈ ps, p.isDict = true ∧
      ∀ t, p.get? "type" = some t → ∃ s, t = .str s

/-- The conversion of the schema comes to this node. -/
def Reaches : Json → Json → Prop :=
  Relation.ReflTransGen fun v c => c ∈ callsOf repr defs v

/-- A schema as pydantic writes it. -/
structure WellFormed (raw : Json) : Prop where
  dict : raw.isDict = true
  defs : ∀ e ∈ defsOf raw, e.2.isDict = true
  nodes : ∀ node, Reaches repr (defsOf raw) raw (.dict node) → Shaped node

/-! ## The recursion and its calls -/

/-- How a conversion ends, by how the recursion over the calls does. -/
inductive Tells {α : Type} : Option Bool → Except Failure α → Prop
  | cutOff : Tells none (.error .recursionError)
  | refused (message : String) : Tells (some false) (.error (.geminiSchemaError message))
  | accepted (a : α) : Tells (some true) (.ok a)

section

variable {f : Json → Except Failure Json} {v : Json → Option Bool}

theorem tells_all {properties : List (String × Json)}
    (h : ∀ c ∈ properties.map Prod.snd, Tells (v c) (f c)) :
    Tells (visitAll v (properties.map Prod.snd)) (convertAll f properties) := by
  induction properties with
  | nil => exact .accepted []
  | cons e rest ih =>
    obtain ⟨pk, pv⟩ := e
    have hpv := h pv List.mem_cons_self
    have hrest := ih fun c hc => h c (List.mem_cons_of_mem _ hc)
    rw [List.map_cons, visitAll, convertAll]
    generalize v pv = b at hpv
    generalize f pv = x at hpv
    cases hpv with
    | cutOff => exact .cutOff
    | refused message => exact .refused message
    | accepted a =>
      generalize visitAll v _ = b at hrest
      generalize convertAll f rest = x at hrest
      cases hrest with
      | cutOff => exact .cutOff
      | refused message => exact .refused message
      | accepted out => exact .accepted _

theorem visitAll_append (l m : List Json) :
    visitAll v (l ++ m) =
      match visitAll v l with
      | some true => visitAll v m
      | other => other := by
  induction l with
  | nil => rfl
  | cons c l ih =>
    rw [List.cons_append, visitAll, visitAll]
    split
    · exact ih
    · rename_i hother
      split
      · rename_i htrue
        exact absurd htrue hother
      · rfl

theorem visitAll_singleton (c : Json) : visitAll v [c] = v c := by
  rw [visitAll]
  split
  · rename_i htrue
    exact htrue.symm
  · rfl

theorem tells_field {k : String} {w : Json} (hk : bannedKeys.elem k = false)
    (h : ∀ c ∈ fieldCalls (k, w), Tells (v c) (f c)) :
    Tells (visitAll v (fieldCalls (k, w))) (convertField f k w) := by
  unfold fieldCalls at h ⊢
  unfold convertField
  simp only [hk, Bool.false_eq_true, if_false] at h ⊢
  split at h
  · rename_i properties
    have hall := tells_all h
    generalize visitAll v _ = b at hall
    generalize convertAll f properties = x at hall
    cases hall with
    | cutOff => exact .cutOff
    | refused message => exact .refused message
    | accepted out => exact .accepted _
  · rw [visitAll_singleton]
    exact h _ (List.mem_singleton_self _)
  · exact .accepted _

theorem fieldCalls_of_banned {e : String × Json} (h : e.1 ∈ bannedKeys) : fieldCalls e = [] := by
  unfold fieldCalls
  rw [if_pos (by simpa using h)]

theorem tells_fields {node : List (String × Json)}
    (h : ∀ c ∈ node.flatMap fieldCalls, Tells (v c) (f c)) :
    Tells (visitAll v (node.flatMap fieldCalls)) (convertFields f node) := by
  induction node with
  | nil => exact .accepted []
  | cons e rest ih =>
    obtain ⟨k, w⟩ := e
    rw [List.flatMap_cons] at h ⊢
    have hrest := ih fun c hc => h c (List.mem_append_right _ hc)
    rw [visitAll_append, convertFields]
    by_cases hk : bannedKeys.elem k = true
    · rw [fieldCalls_of_banned (by simpa using hk), if_pos hk]
      exact hrest
    · rw [if_neg hk]
      have hfield := tells_field (by simpa using hk) fun c hc => h c (List.mem_append_left _ hc)
      generalize visitAll v (fieldCalls (k, w)) = b at hfield
      generalize convertField f k w = x at hfield
      cases hfield with
      | cutOff => exact .cutOff
      | refused message => exact .refused message
      | accepted a =>
        generalize visitAll v _ = b at hrest
        generalize convertFields f rest = x at hrest
        cases hrest with
        | cutOff => exact .cutOff
        | refused message => exact .refused message
        | accepted out => exact .accepted _

end

/-! ## Refusals -/

theorem resolve_text (s : String) :
    (∃ message, resolve defs (.str s) = .error (.geminiSchemaError message)) ∨
      ∃ target, resolve defs (.str s) = .ok target ∧ ∃ name, defs.lookup name = some target := by
  unfold resolve
  by_cases hstart : startsWith s "#/$defs/" = true
  · simp only [hstart, if_true]
    rcases hlookup : defs.lookup (after s "#/$defs/") with _ | target
    · exact Or.inl ⟨_, rfl⟩
    · cases target with
      | null => exact Or.inl ⟨_, rfl⟩
      | _ => exact Or.inr ⟨_, rfl, _, hlookup⟩
  · simp only [hstart]
    exact Or.inl ⟨_, rfl⟩

theorem optional_list {variants : List Json} (h : variants.all Json.isDict = true) :
    (∃ message, optional repr (.list variants) = .error (.geminiSchemaError message)) ∨
      ∃ v ∈ variants, optional repr (.list variants) = .ok v := by
  simp only [optional, h, if_true]
  split
  · rename_i a b v hfilter
    have hmem : v ∈ [a, b].filter (fun v => !isNull v) := by
      rw [hfilter]
      exact List.mem_singleton_self v
    exact Or.inr ⟨v, List.mem_of_mem_filter hmem, rfl⟩
  · exact Or.inl ⟨_, rfl⟩

theorem typesOf_ok {items : List Json} (h : ∀ p ∈ items, p.isDict = true ∧
    ∀ t, p.get? "type" = some t → ∃ s, t = .str s) : ∃ types, typesOf items = .ok types := by
  induction items with
  | nil => exact ⟨[], rfl⟩
  | cons p rest ih =>
    obtain ⟨hdict, htype⟩ := h p List.mem_cons_self
    obtain ⟨types, htypes⟩ := ih fun q hq => h q (List.mem_cons_of_mem p hq)
    unfold typesOf
    rw [hdict, htypes]
    cases hget : p.get? "type" with
    | none => exact ⟨_, rfl⟩
    | some t =>
      obtain ⟨s, rfl⟩ := htype t hget
      exact ⟨_, rfl⟩

theorem sharedItem_list {items : List Json} (h : ∀ p ∈ items, p.isDict = true ∧
    ∀ t, p.get? "type" = some t → ∃ s, t = .str s) :
    (∃ message, sharedItem repr (.list items) = .error (.geminiSchemaError message)) ∨
      ∃ p ∈ items, sharedItem repr (.list items) = .ok p := by
  match items, h with
  | [], _ => exact Or.inl ⟨_, rfl⟩
  | [_], _ => exact Or.inl ⟨_, rfl⟩
  | first :: second :: rest, h =>
    obtain ⟨types, htypes⟩ := typesOf_ok h
    simp only [sharedItem, htypes]
    split
    · exact Or.inl ⟨_, rfl⟩
    · exact Or.inr ⟨first, List.mem_cons_self, rfl⟩

variable {repr defs}

theorem isDict_of_lookup (h : ∀ e ∈ defs, e.2.isDict = true) {name : String} {target : Json}
    (hname : defs.lookup name = some target) : target.isDict = true := by
  obtain ⟨before, after, rfl, -⟩ := List.lookup_eq_some_iff.mp hname
  exact h _ (List.mem_append_right _ List.mem_cons_self)

theorem lookup_of_resolve {ref target : Json} (h : resolve defs ref = .ok target) :
    ∃ name, defs.lookup name = some target := by
  cases ref with
  | str s =>
    rcases resolve_text defs s with ⟨message, hbad⟩ | ⟨found, hok, name, hname⟩
    · rw [hbad] at h
      cases h
    · obtain rfl := Except.ok.inj (h.symm.trans hok)
      exact ⟨name, hname⟩
  | _ => cases h

theorem isDict_of_resolve (hdefs : ∀ e ∈ defs, e.2.isDict = true) {ref target : Json}
    (h : resolve defs ref = .ok target) : target.isDict = true := by
  obtain ⟨name, hname⟩ := lookup_of_resolve h
  exact isDict_of_lookup hdefs hname

theorem isDict_of_optional {node : List (String × Json)} (h : Shaped node) {variants v : Json}
    (hany : node.lookup "anyOf" = some variants) (hok : optional repr variants = .ok v) :
    v.isDict = true := by
  obtain ⟨vs, rfl, hall⟩ := h.anyOf variants hany
  rcases optional_list repr hall with ⟨message, hbad⟩ | ⟨u, hu, hok'⟩
  · rw [hbad] at hok
    cases hok
  · obtain rfl := Except.ok.inj (hok.symm.trans hok')
    exact List.all_eq_true.mp hall _ hu

theorem isDict_of_sharedItem {node : List (String × Json)} (h : Shaped node) {items first : Json}
    (htuple : node.lookup "prefixItems" = some items) (hok : sharedItem repr items = .ok first) :
    first.isDict = true := by
  obtain ⟨ps, rfl, hall⟩ := h.prefixItems items htuple
  rcases sharedItem_list repr hall with ⟨message, hbad⟩ | ⟨p, hp, hok'⟩
  · rw [hbad] at hok
    cases hok
  · obtain rfl := Except.ok.inj (hok.symm.trans hok')
    exact (hall _ hp).1

theorem nullable_dict (node : List (String × Json)) {converted : Json}
    (h : converted.isDict = true) : ∃ out, nullable node converted = .ok (.dict out) := by
  cases converted with
  | dict members => exact ⟨_, rfl⟩
  | _ => cases h

/-- How a node is converted, by its kind. -/
inductive Converted (repr : Json → String) (defs : List (String × Json))
    (f : Json → Except Failure Json) (node : List (String × Json)) : Json → Prop
  | ref {ref target out : Json} (href : node.lookup "$ref" = some ref)
    (hok : resolve defs ref = .ok target) (hf : f target = .ok out) : Converted repr defs f node out
  | union {variants v converted out : Json} (href : node.lookup "$ref" = none)
    (hany : node.lookup "anyOf" = some variants) (hok : optional repr variants = .ok v)
    (hf : f v = .ok converted) (hout : nullable node converted = .ok out) :
    Converted repr defs f node out
  | plain {fields : List (String × Json)} (href : node.lookup "$ref" = none)
    (hany : node.lookup "anyOf" = none) (hfields : convertFields f node = .ok fields)
    (htuple : node.lookup "prefixItems" = none) : Converted repr defs f node (.dict fields)
  | tuple {fields : List (String × Json)} {items first item : Json}
    (href : node.lookup "$ref" = none) (hany : node.lookup "anyOf" = none)
    (hfields : convertFields f node = .ok fields) (htuple : node.lookup "prefixItems" = some items)
    (hok : sharedItem repr items = .ok first) (hf : f first = .ok item) :
    Converted repr defs f node (.dict (flatArray fields item))

theorem converted_of_ok {f : Json → Except Failure Json} {node : List (String × Json)} {out : Json}
    (h : convertNode repr defs f node = .ok out) : Converted repr defs f node out := by
  unfold convertNode at h
  split at h
  · rename_i href
    split at h
    · cases h
    · rename_i hok
      exact .ref href hok h
  · rename_i href
    split at h
    · rename_i hany
      split at h
      · cases h
      · rename_i hok
        split at h
        · cases h
        · rename_i hf
          exact .union href hany hok hf h
    · rename_i hany
      split at h
      · cases h
      · rename_i hfields
        split at h
        · rename_i htuple
          cases h
          exact .plain href hany hfields htuple
        · rename_i htuple
          split at h
          · cases h
          · rename_i hok
            split at h
            · cases h
            · rename_i hf
              cases h
              exact .tuple href hany hfields htuple hok hf

/-- A dict is converted to a dict. -/
theorem isDict_of_convert (hdefs : ∀ e ∈ defs, e.2.isDict = true) {depth : Nat} {v out : Json}
    (hv : v.isDict = true) (h : convert repr defs depth v = .ok out) : out.isDict = true := by
  induction depth generalizing v out with
  | zero => cases h
  | succ depth ih =>
    cases v with
    | dict node =>
      cases converted_of_ok h with
      | ref href hok hf => exact ih (isDict_of_resolve hdefs hok) hf
      | @union _ _ converted _ href hany hok hf hout =>
        cases converted with
        | dict members =>
          cases hout
          rfl
        | _ => cases hout
      | plain => rfl
      | tuple => rfl
    | _ => cases hv

/-- The children of a node and whether it is refused, for each kind of node. -/
inductive Kind (repr : Json → String) (defs : List (String × Json)) (node : List (String × Json)) :
    Prop
  | badRef {ref : Json} {message : String} (href : node.lookup "$ref" = some ref)
    (hbad : resolve defs ref = .error (.geminiSchemaError message)) : Kind repr defs node
  | ref {ref target : Json} (href : node.lookup "$ref" = some ref)
    (hok : resolve defs ref = .ok target) (hdict : target.isDict = true) : Kind repr defs node
  | badUnion {variants : Json} {message : String} (href : node.lookup "$ref" = none)
    (hany : node.lookup "anyOf" = some variants)
    (hbad : optional repr variants = .error (.geminiSchemaError message)) : Kind repr defs node
  | union {variants v : Json} (href : node.lookup "$ref" = none)
    (hany : node.lookup "anyOf" = some variants) (hok : optional repr variants = .ok v)
    (hdict : v.isDict = true) : Kind repr defs node
  | badTuple {items : Json} {message : String} (href : node.lookup "$ref" = none)
    (hany : node.lookup "anyOf" = none) (htuple : node.lookup "prefixItems" = some items)
    (hbad : sharedItem repr items = .error (.geminiSchemaError message)) : Kind repr defs node
  | tuple {items first : Json} (href : node.lookup "$ref" = none)
    (hany : node.lookup "anyOf" = none) (htuple : node.lookup "prefixItems" = some items)
    (hok : sharedItem repr items = .ok first) (hdict : first.isDict = true) : Kind repr defs node
  | plain (href : node.lookup "$ref" = none) (hany : node.lookup "anyOf" = none)
    (htuple : node.lookup "prefixItems" = none) : Kind repr defs node

/-- A node of a schema of pydantic is of one of these kinds. -/
theorem kind_of_shaped (repr : Json → String) (hdefs : ∀ e ∈ defs, e.2.isDict = true)
    {node : List (String × Json)} (h : Shaped node) : Kind repr defs node := by
  cases href : node.lookup "$ref" with
  | some ref =>
    obtain ⟨s, rfl⟩ := h.ref ref href
    rcases resolve_text defs s with ⟨message, hbad⟩ | ⟨target, hok, name, hname⟩
    · exact .badRef href hbad
    · exact .ref href hok (isDict_of_lookup hdefs hname)
  | none =>
    cases hany : node.lookup "anyOf" with
    | some variants =>
      obtain ⟨vs, rfl, hall⟩ := h.anyOf variants hany
      rcases optional_list repr hall with ⟨message, hbad⟩ | ⟨v, hv, hok⟩
      · exact .badUnion href hany hbad
      · exact .union href hany hok (List.all_eq_true.mp hall v hv)
    | none =>
      cases htuple : node.lookup "prefixItems" with
      | some items =>
        obtain ⟨ps, rfl, hall⟩ := h.prefixItems items htuple
        rcases sharedItem_list repr hall with ⟨message, hbad⟩ | ⟨p, hp, hok⟩
        · exact .badTuple href hany htuple hbad
        · exact .tuple href hany htuple hok (hall p hp).1
      | none => exact .plain href hany htuple

/-- A node that is not refused itself ends as what is below it. -/
theorem Tells.keep {α : Type} {b : Option Bool} {x : Except Failure α} (h : Tells b x) :
    Tells (b.map fun found => found && !decide (false = true)) x := by
  cases h with
  | cutOff => exact .cutOff
  | refused message => exact .refused message
  | accepted a => exact .accepted a

/-- A conversion ends as the recursion over its calls does. -/
theorem tells_convert (hdefs : ∀ e ∈ defs, e.2.isDict = true) {depth : Nat} {v : Json}
    (hnodes : ∀ node, Reaches repr defs v (.dict node) → Shaped node) :
    Tells (visit (callsOf repr defs) (fun v => refused repr defs v = true) depth v)
      (convert repr defs depth v) := by
  induction depth generalizing v with
  | zero => exact .cutOff
  | succ depth ih =>
    have hbelow : ∀ c ∈ callsOf repr defs v, Tells
        (visit (callsOf repr defs) (fun v => refused repr defs v = true) depth c)
        (convert repr defs depth c) := fun c hc =>
      ih fun node hnode => hnodes node (.head hc hnode)
    cases v with
    | dict node =>
      change Tells _ (convertNode repr defs (convert repr defs depth) node)
      rw [visit]
      generalize hvisit : visit (callsOf repr defs) (fun v => refused repr defs v = true) depth =
        visited at hbelow ⊢
      unfold callsOf at hbelow ⊢
      unfold refused convertNode
      cases kind_of_shaped repr hdefs (hnodes node .refl) with
      | badRef href hbad =>
        simp only [href, hbad]
        exact .refused _
      | @ref _ target href hok hdict =>
        simp only [href, hok] at hbelow ⊢
        have hone : visitAll visited [target] = visited target := visitAll_singleton target
        change Tells ((visitAll visited [target]).map _) _
        rw [hone]
        exact (hbelow target (List.mem_singleton_self _)).keep
      | badUnion href hany hbad =>
        simp only [href, hany, hbad]
        exact .refused _
      | @union _ w href hany hok hdict =>
        simp only [href, hany, hok] at hbelow ⊢
        have hone : visitAll visited [w] = visited w := visitAll_singleton w
        change Tells ((visitAll visited [w]).map _) _
        rw [hone]
        refine Tells.keep ?_
        have hw := hbelow w (List.mem_singleton_self _)
        cases hconvert : convert repr defs depth w with
        | error e =>
          rw [hconvert] at hw
          generalize visited w = b at hw
          cases hw with
          | cutOff => exact .cutOff
          | refused message => exact .refused message
        | ok converted =>
          obtain ⟨out, hout⟩ := nullable_dict node
            (isDict_of_convert hdefs hdict hconvert)
          rw [hconvert] at hw
          generalize visited w = b at hw
          cases hw
          simp only [hout]
          exact .accepted _
      | badTuple href hany htuple hbad =>
        simp only [href, hany, htuple, hbad] at hbelow ⊢
        have hfields := tells_fields fun c hc => hbelow c (List.mem_append_left _ hc)
        change Tells ((visitAll visited (node.flatMap fieldCalls ++ [])).map _) _
        rw [List.append_nil]
        generalize visitAll visited _ = b at hfields
        generalize convertFields _ node = x at hfields
        cases hfields with
        | cutOff => exact .cutOff
        | refused message => exact .refused message
        | accepted out => exact .refused _
      | @tuple _ first href hany htuple hok hdict =>
        simp only [href, hany, htuple, hok] at hbelow ⊢
        have hfields := tells_fields fun c hc => hbelow c (List.mem_append_left _ hc)
        have hfirst := hbelow first (List.mem_append_right _ (List.mem_singleton_self _))
        have hone : visitAll visited [first] = visited first := visitAll_singleton first
        change Tells ((visitAll visited (node.flatMap fieldCalls ++ [first])).map _) _
        refine Tells.keep ?_
        rw [visitAll_append, hone]
        generalize visitAll visited _ = b at hfields
        generalize convertFields _ node = x at hfields
        cases hfields with
        | cutOff => exact .cutOff
        | refused message => exact .refused message
        | accepted out =>
          generalize visited first = b at hfirst
          generalize convert repr defs depth first = x at hfirst
          cases hfirst with
          | cutOff => exact .cutOff
          | refused message => exact .refused message
          | accepted item => exact .accepted _
      | plain href hany htuple =>
        simp only [href, hany, htuple, List.append_nil] at hbelow ⊢
        have hfields := tells_fields hbelow
        refine Tells.keep ?_
        generalize visitAll visited _ = b at hfields
        generalize convertFields _ node = x at hfields
        cases hfields with
        | cutOff => exact .cutOff
        | refused message => exact .refused message
        | accepted out => exact .accepted _
    | _ => exact .accepted _

/-! ## What a conversion puts out -/

/-- The conversion of the node leaves an empty schema. -/
inductive Blank (defs : List (String × Json)) : Json → Prop
  | ref {node : List (String × Json)} {ref target : Json} (href : node.lookup "$ref" = some ref)
    (hok : resolve defs ref = .ok target) (htarget : Blank defs target) : Blank defs (.dict node)
  | node {node : List (String × Json)} (href : node.lookup "$ref" = none)
    (hbanned : ∀ e ∈ node, e.1 ∈ bannedKeys) : Blank defs (.dict node)

/-- What the conversion of a node puts out has in it what comes of this call. The items of a node
give way to the shared item of its `prefixItems`, unless that one is empty. -/
inductive Shows (repr : Json → String) (defs : List (String × Json)) : Json → Json → Prop
  | ref {node : List (String × Json)} {ref target : Json} (href : node.lookup "$ref" = some ref)
    (hok : resolve defs ref = .ok target) : Shows repr defs (.dict node) target
  | union {node : List (String × Json)} {variants v : Json} (href : node.lookup "$ref" = none)
    (hany : node.lookup "anyOf" = some variants) (hok : optional repr variants = .ok v) :
    Shows repr defs (.dict node) v
  | field {node : List (String × Json)} {e : String × Json} {c : Json}
    (href : node.lookup "$ref" = none) (hany : node.lookup "anyOf" = none) (he : e ∈ node)
    (hc : c ∈ fieldCalls e)
    (hitems : e.1 = "items" → ∀ items first, node.lookup "prefixItems" = some items →
      sharedItem repr items = .ok first → Blank defs first) : Shows repr defs (.dict node) c
  | tuple {node : List (String × Json)} {items first : Json} (href : node.lookup "$ref" = none)
    (hany : node.lookup "anyOf" = none) (htuple : node.lookup "prefixItems" = some items)
    (hok : sharedItem repr items = .ok first) : Shows repr defs (.dict node) first

/-- The keys whose values are converted or left out. -/
def convertedKeys : List String := ["anyOf", "properties", "items", "prefixItems"]

/-- A field that is passed on as it is and is not accepted, or has in it what is not. -/
def SpoilingField (e : String × Json) : Prop :=
  e.1 ∉ bannedKeys ∧ e.1 ∉ convertedKeys ∧ ¬ FieldClean e

/-- The node passes such a field on. -/
def Spoiled : Json → Prop
  | .dict node => node.lookup "$ref" = none ∧ ∃ e ∈ node, SpoilingField e
  | _ => False

/-- No node that shows in what is put out is spoiled. -/
def Tidy (repr : Json → String) (defs : List (String × Json)) (v : Json) : Prop :=
  ∀ node, Relation.ReflTransGen (Shows repr defs) v node → ¬ Spoiled node

theorem tidy_iff (v : Json) :
    Tidy repr defs v ↔ ¬ Spoiled v ∧ ∀ c, Shows repr defs v c → Tidy repr defs c := by
  constructor
  · intro h
    exact ⟨h v .refl, fun c hc node hnode => h node (.head hc hnode)⟩
  · rintro ⟨hhere, hbelow⟩ node hnode
    rcases Relation.ReflTransGen.cases_head hnode with rfl | ⟨c, hc, hrest⟩
    · exact hhere
    · exact hbelow c hc node hrest

theorem tidy_of_not_dict {v : Json} (h : v.isDict = false) : Tidy repr defs v := by
  rw [tidy_iff]
  refine ⟨?_, fun c hc => ?_⟩
  · cases v with
    | dict node => cases h
    | _ => exact id
  · cases hc <;> cases h

section

variable {f : Json → Except Failure Json}

theorem convertAll_spec {properties out : List (String × Json)}
    (h : convertAll f properties = .ok out) :
    List.Forall₂ (fun e o => o.1 = e.1 ∧ f e.2 = .ok o.2) properties out := by
  induction properties generalizing out with
  | nil =>
    cases h
    exact .nil
  | cons e rest ih =>
    unfold convertAll at h
    split at h
    · cases h
    · rename_i hv
      split at h
      · cases h
      · rename_i hrest
        cases h
        exact .cons ⟨rfl, hv⟩ (ih hrest)

theorem convertFields_spec {node out : List (String × Json)} (h : convertFields f node = .ok out) :
    List.Forall₂ (fun e o => o.1 = e.1 ∧ convertField f e.1 e.2 = .ok o.2) (strip node) out := by
  induction node generalizing out with
  | nil =>
    cases h
    exact .nil
  | cons e rest ih =>
    obtain ⟨k, v⟩ := e
    unfold convertFields at h
    unfold strip
    by_cases hk : bannedKeys.elem k = true
    · rw [if_pos hk] at h
      rw [List.filter_cons_of_neg (by simpa using hk)]
      exact ih h
    · rw [if_neg hk] at h
      rw [List.filter_cons_of_pos (by simpa using hk)]
      split at h
      · cases h
      · rename_i hv
        split at h
        · cases h
        · rename_i hrest
          cases h
          exact .cons ⟨rfl, hv⟩ (ih hrest)

theorem forall_values {P : Json → Prop} {properties out : List (String × Json)}
    (h : List.Forall₂ (fun e o => o.1 = e.1 ∧ f e.2 = .ok o.2) properties out) :
    (∀ c ∈ out.map Prod.snd, P c) ↔ ∀ c ∈ properties.map Prod.snd, ∀ d, f c = .ok d → P d := by
  induction h with
  | nil => simp
  | cons hhead _ ih =>
    rw [List.map_cons, List.map_cons, List.forall_mem_cons, List.forall_mem_cons, ih, hhead.2]
    simp

/-- A field is clean when it does not spoil the node and what comes of its calls is clean. -/
theorem fieldClean_iff {e o : String × Json} (hbanned : e.1 ∉ bannedKeys) (hany : e.1 ≠ "anyOf")
    (htuple : e.1 ≠ "prefixItems") (hkey : o.1 = e.1) (hf : convertField f e.1 e.2 = .ok o.2) :
    FieldClean o ↔ ¬ SpoilingField e ∧ ∀ c ∈ fieldCalls e, ∀ d, f c = .ok d → Clean d := by
  obtain ⟨k, v⟩ := e
  obtain ⟨k', w⟩ := o
  obtain rfl : k' = k := hkey
  have hcalls : bannedKeys.elem k' = false := by simpa using hbanned
  change convertField f k' v = .ok w at hf
  unfold fieldCalls
  simp only [hcalls, Bool.false_eq_true, if_false]
  unfold convertField at hf
  split at hf
  · rename_i properties
    split at hf
    · cases hf
    · rename_i out hout
      cases hf
      have hspoils : ¬ SpoilingField ("properties", .dict properties) := fun h =>
        h.2.1 (show "properties" ∈ convertedKeys by decide)
      rw [and_iff_right hspoils]
      rw [← forall_values (convertAll_spec hout)]
      exact and_iff_right (show "properties" ∉ notAccepted by decide)
  · have hspoils : ¬ SpoilingField ("items", v) := fun h =>
      h.2.1 (show "items" ∈ convertedKeys by decide)
    rw [and_iff_right hspoils]
    unfold FieldClean
    rw [and_iff_right (show "items" ∉ notAccepted by decide)]
    simp [under, hf]
  · rename_i hitems hproperties
    cases hf
    by_cases hk : k' = "properties"
    · -- Properties that are no dict hold no schemas.
      subst hk
      have hspoils : ¬ SpoilingField ("properties", v) := fun h =>
        h.2.1 (show "properties" ∈ convertedKeys by decide)
      have hunder : under ("properties", v) = [] := by
        cases v with
        | dict properties => exact (hproperties properties rfl rfl).elim
        | _ => rfl
      have hclean : FieldClean ("properties", v) :=
        ⟨show "properties" ∉ notAccepted by decide, by simp [hunder]⟩
      simp [hspoils, hclean]
    · have hpassed : k' ∉ convertedKeys := by
        simp only [convertedKeys, List.mem_cons, List.not_mem_nil, or_false, not_or]
        exact ⟨hany, hk, hitems, htuple⟩
      have hspoils : SpoilingField (k', v) ↔ ¬ FieldClean (k', v) :=
        ⟨fun h => h.2.2, fun h => ⟨hbanned, hpassed, h⟩⟩
      rw [hspoils, not_not]
      simp

end

/-! ## Writes on the fields -/

section

variable {k : String} {v : Json} {es : List (String × Json)} {o : String × Json}

theorem mem_of_mem_setEntries (h : o ∈ setEntries k v es) : o = (k, v) ∨ o ∈ es := by
  induction es with
  | nil => exact Or.inl (List.mem_singleton.mp h)
  | cons e rest ih =>
    unfold setEntries at h
    split at h
    · rcases List.mem_cons.mp h with rfl | hrest
      · exact Or.inl rfl
      · exact Or.inr (List.mem_cons_of_mem _ hrest)
    · rcases List.mem_cons.mp h with rfl | hrest
      · exact Or.inr List.mem_cons_self
      · exact (ih hrest).imp id (List.mem_cons_of_mem _)

theorem mem_setEntries_of_mem (h : o ∈ es) (hk : o.1 ≠ k) : o ∈ setEntries k v es := by
  induction es with
  | nil => cases h
  | cons e rest ih =>
    unfold setEntries
    split
    · rename_i he
      rcases List.mem_cons.mp h with rfl | hrest
      · exact absurd he hk
      · exact List.mem_cons_of_mem _ hrest
    · rcases List.mem_cons.mp h with rfl | hrest
      · exact List.mem_cons_self
      · exact List.mem_cons_of_mem _ (ih hrest)

theorem mem_setEntries_self : (k, v) ∈ setEntries k v es := by
  induction es with
  | nil => exact List.mem_singleton_self _
  | cons e rest ih =>
    unfold setEntries
    split
    · exact List.mem_cons_self
    · exact List.mem_cons_of_mem _ ih

theorem nodup_setEntries (hnodup : (es.map Prod.fst).Nodup) :
    ((setEntries k v es).map Prod.fst).Nodup := by
  rw [keys_setEntries]
  split
  · exact hnodup
  · rename_i hnew
    rw [List.nodup_append]
    refine ⟨hnodup, List.nodup_singleton k, fun a ha b hb hab => hnew ?_⟩
    rw [← List.mem_singleton.mp hb, ← hab]
    exact ha

/-- Where each key stands once, the write leaves nothing else at its key. -/
theorem eq_of_mem_setEntries (hnodup : (es.map Prod.fst).Nodup) (h : o ∈ setEntries k v es)
    (hk : o.1 = k) : o = (k, v) :=
  List.inj_on_of_nodup_map (nodup_setEntries hnodup) h mem_setEntries_self hk

theorem mem_of_mem_setDefaults {beside : List (String × Json)}
    (h : o ∈ beside.foldl setDefault es) : o ∈ es ∨ o ∈ beside := by
  induction beside generalizing es with
  | nil => exact Or.inl h
  | cons e rest ih =>
    rw [List.foldl_cons] at h
    rcases ih h with hset | hrest
    · unfold setDefault at hset
      split at hset
      · exact Or.inl hset
      · rcases List.mem_append.mp hset with hold | hnew
        · exact Or.inl hold
        · rw [List.mem_singleton.mp hnew]
          exact Or.inr List.mem_cons_self
    · exact Or.inr (List.mem_cons_of_mem e hrest)

theorem mem_setDefaults_of_mem {beside : List (String × Json)} (h : o ∈ es) :
    o ∈ beside.foldl setDefault es := by
  induction beside generalizing es with
  | nil => exact h
  | cons e rest ih =>
    rw [List.foldl_cons]
    refine ih ?_
    unfold setDefault
    split
    · exact h
    · exact List.mem_append_left _ h

theorem key_mem_setDefaults (es : List (String × Json)) {beside : List (String × Json)}
    (h : o ∈ beside) : ∃ w, (o.1, w) ∈ beside.foldl setDefault es := by
  induction beside generalizing es with
  | nil => cases h
  | cons e rest ih =>
    rw [List.foldl_cons]
    rcases List.mem_cons.mp h with rfl | hrest
    · have hset : ∃ w, (o.1, w) ∈ setDefault es o := by
        unfold setDefault
        split
        · rename_i hold
          obtain ⟨w, hw⟩ := Option.isSome_iff_exists.mp hold
          obtain ⟨before, after, rfl, -⟩ := List.lookup_eq_some_iff.mp hw
          exact ⟨w, List.mem_append_right _ List.mem_cons_self⟩
        · exact ⟨o.2, List.mem_append_right _ (List.mem_singleton_self _)⟩
      obtain ⟨w, hw⟩ := hset
      exact ⟨w, mem_setDefaults_of_mem hw⟩
    · exact ih _ hrest

end

theorem fieldClean_of_key {o : String × Json} (h : o.1 = "type" ∨ o.1 = "nullable") :
    FieldClean o := by
  obtain ⟨k, v⟩ := o
  have hunder : under (k, v) = [] := by
    change k = "type" ∨ k = "nullable" at h
    rcases h with rfl | rfl
    · cases v <;> rfl
    · cases v <;> rfl
  have hkey : k ∉ notAccepted := by
    change k = "type" ∨ k = "nullable" at h
    rcases h with rfl | rfl
    · decide
    · decide
  exact ⟨hkey, by simp [hunder]⟩

/-- What is put out for an option is clean when its variant is and the fields beside are. -/
theorem clean_nullable {node members out : List (String × Json)}
    (hunbanned : ∀ o ∈ members, o.1 ∉ bannedKeys)
    (hbeside : ∀ e ∈ node, e.1 ≠ "anyOf" → e.1 ∉ bannedKeys → under e = [])
    (h : nullable node (.dict members) = .ok (.dict out)) :
    Clean (.dict out) ↔ Clean (.dict members) ∧
      ∀ e ∈ node, e.1 ≠ "anyOf" → e.1 ∉ bannedKeys → FieldClean e := by
  cases h
  have hkeep : ∀ o : String × Json, (!bannedKeys.elem o.1) = true ↔ o.1 ∉ bannedKeys := by simp
  rw [clean_dict_iff, clean_dict_iff]
  constructor
  · intro hout
    constructor
    · intro o ho
      by_cases hnullable : o.1 = "nullable"
      · exact fieldClean_of_key (Or.inr hnullable)
      · refine hout o (List.mem_filter.mpr ⟨?_, (hkeep o).mpr (hunbanned o ho)⟩)
        exact mem_setDefaults_of_mem (mem_setEntries_of_mem ho hnullable)
    · intro e he hany hbanned
      have hmem : e ∈ node.filter fun e => e.1 ≠ "anyOf" :=
        List.mem_filter.mpr ⟨he, by simpa using hany⟩
      obtain ⟨w, hw⟩ := key_mem_setDefaults (setEntries "nullable" (.bool true) members) hmem
      have hclean := hout (e.1, w) (List.mem_filter.mpr ⟨hw, (hkeep (e.1, w)).mpr hbanned⟩)
      exact ⟨hclean.1, by simp [hbeside e he hany hbanned]⟩
  · rintro ⟨hmembers, hfields⟩ o ho
    obtain ⟨hmem, hbanned⟩ := List.mem_filter.mp ho
    rcases mem_of_mem_setDefaults hmem with hset | hmem
    · rcases mem_of_mem_setEntries hset with rfl | hold
      · exact fieldClean_of_key (Or.inr rfl)
      · exact hmembers o hold
    · obtain ⟨hnode, hany⟩ := List.mem_filter.mp hmem
      exact hfields o hnode (by simpa using hany) ((hkeep o).mp hbanned)

/-- What is put out for a tuple is clean when its item is and the fields that stay are. -/
theorem clean_flatArray {out : List (String × Json)} {item : Json}
    (hnodup : (out.map Prod.fst).Nodup) :
    Clean (.dict (flatArray out item)) ↔
      (∀ o ∈ out, o.1 ≠ "prefixItems" → (o.1 = "items" → item.truthy = false) → FieldClean o) ∧
        (item.truthy = true → Clean item) := by
  have hfilter : ∀ o, o ∈ out.filter (fun e => e.1 ≠ "prefixItems") ↔
      o ∈ out ∧ o.1 ≠ "prefixItems" := by
    intro o
    rw [List.mem_filter]
    simp
  have hrest : ((out.filter fun e => e.1 ≠ "prefixItems").map Prod.fst).Nodup :=
    hnodup.sublist (List.Sublist.map _ List.filter_sublist)
  rw [clean_dict_iff]
  unfold flatArray
  dsimp only
  cases htruthy : item.truthy with
  | false =>
    simp only [Bool.false_eq_true, if_false, false_implies, and_true, implies_true, true_implies]
    constructor
    · intro hout o ho htuple
      by_cases htype : o.1 = "type"
      · exact fieldClean_of_key (Or.inl htype)
      · exact hout o (mem_setEntries_of_mem ((hfilter o).mpr ⟨ho, htuple⟩) htype)
    · intro hfields o ho
      rcases mem_of_mem_setEntries ho with rfl | hold
      · exact fieldClean_of_key (Or.inl rfl)
      · obtain ⟨hmem, htuple⟩ := (hfilter o).mp hold
        exact hfields o hmem htuple
  | true =>
    simp only [if_true, Bool.true_eq_false, true_implies]
    have hflat : ((setEntries "type" (.str "array")
        (out.filter fun e => e.1 ≠ "prefixItems")).map Prod.fst).Nodup := nodup_setEntries hrest
    have hitem : FieldClean ("items", item) ↔ Clean item := by
      unfold FieldClean
      rw [and_iff_right (show "items" ∉ notAccepted by decide)]
      simp [under]
    constructor
    · intro hout
      refine ⟨fun o ho htuple hitems => ?_, hitem.mp (hout _ mem_setEntries_self)⟩
      by_cases htype : o.1 = "type"
      · exact fieldClean_of_key (Or.inl htype)
      · refine hout o (mem_setEntries_of_mem ?_ hitems)
        exact mem_setEntries_of_mem ((hfilter o).mpr ⟨ho, htuple⟩) htype
    · rintro ⟨hfields, hclean⟩ o ho
      by_cases hitems : o.1 = "items"
      · rw [eq_of_mem_setEntries hflat ho hitems]
        exact hitem.mpr hclean
      · rcases mem_of_mem_setEntries ho with rfl | hold
        · exact absurd rfl hitems
        · rcases mem_of_mem_setEntries hold with rfl | hold
          · exact fieldClean_of_key (Or.inl rfl)
          · obtain ⟨hmem, htuple⟩ := (hfilter o).mp hold
            exact hfields o hmem htuple hitems

/-! ## Clean schemas -/

theorem keys_of_fields {f : Json → Except Failure Json} {node fields : List (String × Json)}
    (h : convertFields f node = .ok fields) :
    fields.map Prod.fst = (strip node).map Prod.fst :=
  keys_of_forall₂ (fun _ _ hxy => hxy.1) (convertFields_spec h)

theorem unbanned_of_strip {node : List (String × Json)} {e : String × Json} (h : e ∈ strip node) :
    e.1 ∉ bannedKeys := by
  simpa using (List.mem_filter.mp h).2

theorem unbanned_of_fields {f : Json → Except Failure Json} {node fields : List (String × Json)}
    (h : convertFields f node = .ok fields) {o : String × Json} (ho : o ∈ fields) :
    o.1 ∉ bannedKeys := by
  have hkey : o.1 ∈ (strip node).map Prod.fst := keys_of_fields h ▸ List.mem_map_of_mem ho
  obtain ⟨e, he, heq⟩ := List.mem_map.mp hkey
  rw [← heq]
  exact unbanned_of_strip he

theorem type_mem_flatArray (out : List (String × Json)) (item : Json) :
    ("type", .str "array") ∈ flatArray out item := by
  unfold flatArray
  dsimp only
  split
  · exact mem_setEntries_of_mem mem_setEntries_self (show "type" ≠ "items" by decide)
  · exact mem_setEntries_self

theorem mem_of_mem_flatArray {out : List (String × Json)} {item : Json} {o : String × Json}
    (h : o ∈ flatArray out item) : o.1 = "type" ∨ o.1 = "items" ∨ o ∈ out := by
  have hflat : ∀ o ∈ setEntries "type" (Json.str "array")
      (out.filter fun e => e.1 ≠ "prefixItems"), o.1 = "type" ∨ o.1 = "items" ∨ o ∈ out := by
    intro o ho
    rcases mem_of_mem_setEntries ho with rfl | hold
    · exact Or.inl rfl
    · exact Or.inr (Or.inr (List.mem_of_mem_filter hold))
  unfold flatArray at h
  dsimp only at h
  split at h
  · rcases mem_of_mem_setEntries h with rfl | hold
    · exact Or.inr (Or.inl rfl)
    · exact hflat o hold
  · exact hflat o h

/-- No banned key is at the top of what a dict is converted to. -/
theorem unbanned_of_convert (hdefs : ∀ e ∈ defs, e.2.isDict = true) {depth : Nat} {v : Json}
    {out : List (String × Json)} (hv : v.isDict = true)
    (h : convert repr defs depth v = .ok (.dict out)) {o : String × Json} (ho : o ∈ out) :
    o.1 ∉ bannedKeys := by
  induction depth generalizing v with
  | zero => cases h
  | succ depth ih =>
    cases v with
    | dict node =>
      cases converted_of_ok h with
      | ref href hok hf => exact ih (isDict_of_resolve hdefs hok) hf
      | @union _ _ converted _ href hany hok hf hout =>
        cases converted with
        | dict members =>
          cases hout
          exact unbanned_of_strip ho
        | _ => cases hout
      | plain href hany hfields => exact unbanned_of_fields hfields ho
      | tuple href hany hfields =>
        rcases mem_of_mem_flatArray ho with hkey | hkey | hold
        · rw [hkey]
          decide
        · rw [hkey]
          decide
        · exact unbanned_of_fields hfields hold
    | _ => cases hv

theorem blank_ref_iff {node : List (String × Json)} {ref target : Json}
    (href : node.lookup "$ref" = some ref) (hok : resolve defs ref = .ok target) :
    Blank defs (.dict node) ↔ Blank defs target := by
  constructor
  · intro h
    cases h with
    | ref href' hok' htarget =>
      obtain rfl := Option.some.inj (href.symm.trans href')
      obtain rfl := Except.ok.inj (hok.symm.trans hok')
      exact htarget
    | node href' =>
      rw [href] at href'
      cases href'
  · exact .ref href hok

theorem blank_node_iff {node : List (String × Json)} (href : node.lookup "$ref" = none) :
    Blank defs (.dict node) ↔ ∀ e ∈ node, e.1 ∈ bannedKeys := by
  constructor
  · intro h
    cases h with
    | ref href' =>
      rw [href] at href'
      cases href'
    | node _ hbanned => exact hbanned
  · exact .node href

theorem mem_of_lookup {node : List (String × Json)} {k : String} {v : Json}
    (h : node.lookup k = some v) : (k, v) ∈ node := by
  obtain ⟨before, after, rfl, -⟩ := List.lookup_eq_some_iff.mp h
  exact List.mem_append_right _ List.mem_cons_self

theorem truthy_of_mem {o : String × Json} {members : List (String × Json)} (h : o ∈ members) :
    (Json.dict members).truthy = true := by
  cases members with
  | nil => cases h
  | cons e rest => rfl

/-- Exactly the blank dicts leave an empty schema. -/
theorem falsy_iff_blank (hdefs : ∀ e ∈ defs, e.2.isDict = true) {depth : Nat} {v out : Json}
    (hv : v.isDict = true) (h : convert repr defs depth v = .ok out) :
    out.truthy = false ↔ Blank defs v := by
  induction depth generalizing v out with
  | zero => cases h
  | succ depth ih =>
    cases v with
    | dict node =>
      cases converted_of_ok h with
      | ref href hok hf =>
        rw [blank_ref_iff href hok]
        exact ih (isDict_of_resolve hdefs hok) hf
      | @union _ _ converted _ href hany hok hf hout =>
        have hnot : ¬ ∀ e ∈ node, e.1 ∈ bannedKeys := fun hall =>
          absurd (hall _ (mem_of_lookup hany)) (show "anyOf" ∉ bannedKeys by decide)
        rw [blank_node_iff href, iff_false_right hnot]
        cases converted with
        | dict members =>
          cases hout
          have hmem : ("nullable", Json.bool true) ∈ strip ((node.filter
              fun e => e.1 ≠ "anyOf").foldl setDefault
                (setEntries "nullable" (.bool true) members)) :=
            List.mem_filter.mpr ⟨mem_setDefaults_of_mem mem_setEntries_self, rfl⟩
          rw [truthy_of_mem hmem]
          simp
        | _ => cases hout
      | @plain fields href hany hfields htuple =>
        have hkeys := keys_of_fields hfields
        have hempty : fields = [] ↔ strip node = [] := by
          rw [← List.map_eq_nil_iff (f := Prod.fst), hkeys, List.map_eq_nil_iff]
        have hfalsy : (Json.dict fields).truthy = false ↔ fields = [] := by
          simp [Json.truthy]
        rw [blank_node_iff href, hfalsy, hempty, strip, List.filter_eq_nil_iff]
        simp
      | tuple href hany hfields htuple =>
        have hnot : ¬ ∀ e ∈ node, e.1 ∈ bannedKeys := fun hall =>
          absurd (hall _ (mem_of_lookup htuple)) (show "prefixItems" ∉ bannedKeys by decide)
        rw [blank_node_iff href, iff_false_right hnot, truthy_of_mem (type_mem_flatArray _ _)]
        simp
    | _ => cases hv

section

variable {f : Json → Except Failure Json}

theorem calls_ok {e : String × Json} {w : Json} (hf : convertField f e.1 e.2 = .ok w) :
    ∀ c ∈ fieldCalls e, ∃ d, f c = .ok d := by
  obtain ⟨k, v⟩ := e
  change convertField f k v = .ok w at hf
  intro c hc
  unfold fieldCalls at hc
  by_cases hk : bannedKeys.elem k = true
  · rw [if_pos hk] at hc
    cases hc
  · rw [if_neg hk] at hc
    unfold convertField at hf
    split at hf
    · split at hf
      · cases hf
      · rename_i out hout
        obtain ⟨e, he, rfl⟩ := List.mem_map.mp hc
        obtain ⟨i, hi, rfl⟩ := List.getElem_of_mem he
        have hspec := convertAll_spec hout
        exact ⟨_, (hspec.get hi (hspec.length_eq ▸ hi)).2⟩
    · rw [List.mem_singleton.mp hc]
      exact ⟨w, hf⟩
    · rename_i hitems hproperties
      split at hc
      · rename_i hkey hvalue
        exact (hproperties _ hkey hvalue).elim
      · rename_i hkey
        exact (hitems hkey).elim
      · cases hc

theorem ne_of_lookup_none {node : List (String × Json)} {k : String} (h : node.lookup k = none)
    {e : String × Json} (he : e ∈ node) : e.1 ≠ k := by
  rintro rfl
  simpa using List.lookup_eq_none_iff.mp h e he

/-- What a field gives is clean exactly when it spoils nothing itself and its calls are good. -/
theorem field_iff {stay : Prop} {good : Json → Prop} {e o : String × Json}
    (hbanned : e.1 ∉ bannedKeys) (hany : e.1 ≠ "anyOf") (hkey : o.1 = e.1)
    (hf : convertField f e.1 e.2 = .ok o.2)
    (hgood : ∀ c ∈ fieldCalls e, ∀ d, f c = .ok d → (Clean d ↔ good c)) :
    (o.1 ≠ "prefixItems" → (o.1 = "items" → stay) → FieldClean o) ↔
      ¬ SpoilingField e ∧ ((e.1 = "items" → stay) → ∀ c ∈ fieldCalls e, good c) := by
  rw [hkey]
  by_cases htuple : e.1 = "prefixItems"
  · have hspoils : ¬ SpoilingField e := fun hs =>
      hs.2.1 (htuple ▸ show "prefixItems" ∈ convertedKeys by decide)
    have hnone : fieldCalls e = [] := by
      obtain ⟨k, v⟩ := e
      subst htuple
      rfl
    simp [htuple, hspoils, hnone]
  · have hcalls : (∀ c ∈ fieldCalls e, ∀ d, f c = .ok d → Clean d) ↔
        ∀ c ∈ fieldCalls e, good c := by
      refine forall₂_congr fun c hc => ?_
      obtain ⟨d, hd⟩ := calls_ok hf c hc
      rw [← hgood c hc d hd, hd]
      simp
    rw [fieldClean_iff hbanned hany htuple hkey hf, hcalls]
    by_cases hitems : e.1 = "items"
    · have hspoils : ¬ SpoilingField e := fun hs =>
        hs.2.1 (hitems ▸ show "items" ∈ convertedKeys by decide)
      simp [hitems, hspoils]
    · simp [hitems, htuple]

/-- What the fields of a node have to be for what is put out to be clean. `stay` says whether the
items of the node stay in it, and `good` which schemas are converted to clean ones. -/
theorem fields_iff {node fields : List (String × Json)} {stay : Prop} {good : Json → Prop}
    (hany : node.lookup "anyOf" = none) (h : convertFields f node = .ok fields)
    (hgood : ∀ c ∈ node.flatMap fieldCalls, ∀ d, f c = .ok d → (Clean d ↔ good c)) :
    (∀ o ∈ fields, o.1 ≠ "prefixItems" → (o.1 = "items" → stay) → FieldClean o) ↔
      ∀ e ∈ node, ¬ SpoilingField e ∧ ((e.1 = "items" → stay) → ∀ c ∈ fieldCalls e, good c) := by
  have hstrip : (∀ e ∈ node, ¬ SpoilingField e ∧
      ((e.1 = "items" → stay) → ∀ c ∈ fieldCalls e, good c)) ↔
        ∀ e ∈ strip node, ¬ SpoilingField e ∧
          ((e.1 = "items" → stay) → ∀ c ∈ fieldCalls e, good c) := by
    refine ⟨fun hall e he => hall e (List.mem_of_mem_filter he), fun hall e he => ?_⟩
    by_cases hbanned : e.1 ∈ bannedKeys
    · exact ⟨fun hs => hs.1 hbanned, fun _ => by simp [fieldCalls_of_banned hbanned]⟩
    · exact hall e (List.mem_filter.mpr ⟨he, by simpa using hbanned⟩)
  rw [hstrip]
  have hspec := convertFields_spec h
  have hsub : ∀ e ∈ strip node, e ∈ node ∧ e.1 ∉ bannedKeys := fun e he =>
    ⟨List.mem_of_mem_filter he, unbanned_of_strip he⟩
  clear hstrip h
  generalize strip node = kept at hspec hsub
  induction hspec with
  | nil => simp
  | @cons e o _ _ hhead _ ih =>
    obtain ⟨he, hbanned⟩ := hsub e List.mem_cons_self
    rw [List.forall_mem_cons, List.forall_mem_cons]
    refine and_congr (field_iff hbanned (ne_of_lookup_none hany he) hhead.1 hhead.2 ?_)
      (ih fun e' he' => hsub e' (List.mem_cons_of_mem e he'))
    exact fun c hc => hgood c (List.mem_flatMap.mpr ⟨e, he, hc⟩)

end

theorem not_spoiled_iff {node : List (String × Json)} (href : node.lookup "$ref" = none) :
    ¬ Spoiled (.dict node) ↔ ∀ e ∈ node, ¬ SpoilingField e := by
  change ¬ (node.lookup "$ref" = none ∧ ∃ e ∈ node, SpoilingField e) ↔ _
  rw [and_iff_right href]
  push Not
  rfl

/-- Beside a union a field spoils the node by its key alone. -/
theorem not_spoiling_iff {e : String × Json}
    (hbeside : e.1 ≠ "anyOf" → e.1 ∉ bannedKeys → under e = []) :
    ¬ SpoilingField e ↔ (e.1 ≠ "anyOf" → e.1 ∉ bannedKeys → FieldClean e) := by
  constructor
  · intro hs hany hbanned
    by_cases hconverted : e.1 ∈ convertedKeys
    · refine ⟨?_, by simp [hbeside hany hbanned]⟩
      simp only [convertedKeys, List.mem_cons, List.not_mem_nil, or_false] at hconverted
      rcases hconverted with hkey | hkey | hkey | hkey
      · exact absurd hkey hany
      · rw [hkey]
        decide
      · rw [hkey]
        decide
      · rw [hkey]
        decide
    · exact not_not.mp fun hclean => hs ⟨hbanned, hconverted, hclean⟩
  · rintro hclean ⟨hbanned, hconverted, hnot⟩
    refine hnot (hclean (fun hany => hconverted ?_) hbanned)
    rw [hany]
    decide

/-- The fields of a node are good where the node is not spoiled and what shows of them is good. -/
theorem fields_good_iff {node : List (String × Json)} {stay : Prop} {good : Json → Prop}
    (href : node.lookup "$ref" = none) :
    (∀ e ∈ node, ¬ SpoilingField e ∧ ((e.1 = "items" → stay) → ∀ c ∈ fieldCalls e, good c)) ↔
      ¬ Spoiled (.dict node) ∧
        ∀ c, (∃ e ∈ node, (e.1 = "items" → stay) ∧ c ∈ fieldCalls e) → good c := by
  rw [not_spoiled_iff href]
  constructor
  · intro h
    exact ⟨fun e he => (h e he).1, fun c ⟨e, he, hstay, hc⟩ => (h e he).2 hstay c hc⟩
  · rintro ⟨hs, hgood⟩ e he
    exact ⟨hs e he, fun hstay c hc => hgood c ⟨e, he, hstay, hc⟩⟩

section

variable {node : List (String × Json)} {c : Json}

theorem shows_ref_iff {ref target : Json} (href : node.lookup "$ref" = some ref)
    (hok : resolve defs ref = .ok target) : Shows repr defs (.dict node) c ↔ c = target := by
  constructor
  · intro hc
    cases hc with
    | ref href' hok' =>
      obtain rfl := Option.some.inj (href.symm.trans href')
      exact (Except.ok.inj (hok.symm.trans hok')).symm
    | union href' | field href' | tuple href' =>
      rw [href] at href'
      cases href'
  · rintro rfl
    exact .ref href hok

theorem shows_union_iff {variants v : Json} (href : node.lookup "$ref" = none)
    (hany : node.lookup "anyOf" = some variants) (hok : optional repr variants = .ok v) :
    Shows repr defs (.dict node) c ↔ c = v := by
  constructor
  · intro hc
    cases hc with
    | ref href' =>
      rw [href] at href'
      cases href'
    | union _ hany' hok' =>
      obtain rfl := Option.some.inj (hany.symm.trans hany')
      exact (Except.ok.inj (hok.symm.trans hok')).symm
    | field _ hany' | tuple _ hany' =>
      rw [hany] at hany'
      cases hany'
  · rintro rfl
    exact .union href hany hok

theorem shows_plain_iff (href : node.lookup "$ref" = none) (hany : node.lookup "anyOf" = none)
    (htuple : node.lookup "prefixItems" = none) :
    Shows repr defs (.dict node) c ↔
      ∃ e ∈ node, (e.1 = "items" → True) ∧ c ∈ fieldCalls e := by
  constructor
  · intro hc
    cases hc with
    | ref href' =>
      rw [href] at href'
      cases href'
    | union _ hany' =>
      rw [hany] at hany'
      cases hany'
    | field _ _ he hc => exact ⟨_, he, fun _ => trivial, hc⟩
    | tuple _ _ htuple' =>
      rw [htuple] at htuple'
      cases htuple'
  · rintro ⟨e, he, -, hc⟩
    refine .field href hany he hc fun _ items _ htuple' => ?_
    rw [htuple] at htuple'
    cases htuple'

theorem shows_tuple_iff {items first : Json} (href : node.lookup "$ref" = none)
    (hany : node.lookup "anyOf" = none) (htuple : node.lookup "prefixItems" = some items)
    (hok : sharedItem repr items = .ok first) :
    Shows repr defs (.dict node) c ↔
      (∃ e ∈ node, (e.1 = "items" → Blank defs first) ∧ c ∈ fieldCalls e) ∨ c = first := by
  constructor
  · intro hc
    cases hc with
    | ref href' =>
      rw [href] at href'
      cases href'
    | union _ hany' =>
      rw [hany] at hany'
      cases hany'
    | field _ _ he hc hitems =>
      exact Or.inl ⟨_, he, fun hkey => hitems hkey _ first htuple hok, hc⟩
    | tuple _ _ htuple' hok' =>
      obtain rfl := Option.some.inj (htuple.symm.trans htuple')
      exact Or.inr (Except.ok.inj (hok.symm.trans hok')).symm
  · rintro (⟨e, he, hstay, hc⟩ | rfl)
    · refine .field href hany he hc fun hkey _ first' htuple' hok' => ?_
      obtain rfl := Option.some.inj (htuple.symm.trans htuple')
      obtain rfl := Except.ok.inj (hok.symm.trans hok')
      exact hstay hkey
    · exact .tuple href hany htuple hok

end

/-- The item of a tuple is left out when it is empty, and is clean then. -/
theorem clean_of_falsy {v : Json} (h : v.truthy = false) : Clean v := by
  cases v with
  | dict members =>
    rw [clean_dict_iff]
    intro o ho
    rw [truthy_of_mem ho] at h
    cases h
  | _ => exact clean_of_not_dict rfl

/-- What is put out for a schema of pydantic is clean exactly where no node that shows in it is
spoiled. -/
theorem clean_iff_tidy (hdefs : ∀ e ∈ defs, e.2.isDict = true) {depth : Nat} {v out : Json}
    (hnodes : ∀ node, Reaches repr defs v (.dict node) → Shaped node)
    (h : convert repr defs depth v = .ok out) : Clean out ↔ Tidy repr defs v := by
  induction depth generalizing v out with
  | zero => cases h
  | succ depth ih =>
    cases v with
    | dict node =>
      have hshape := hnodes node .refl
      have hbelow : ∀ c ∈ callsOf repr defs (.dict node), ∀ d, convert repr defs depth c = .ok d →
          (Clean d ↔ Tidy repr defs c) :=
        fun c hc d hd => ih (fun below hreach => hnodes below (.head hc hreach)) hd
      rw [tidy_iff]
      unfold callsOf at hbelow
      cases converted_of_ok h with
      | @ref ref target _ href hok hf =>
        simp only [href, hok] at hbelow
        have hspoiled : ¬ Spoiled (.dict node) := by
          rintro ⟨hnone, -⟩
          rw [href] at hnone
          cases hnone
        rw [hbelow target (List.mem_singleton_self _) out hf]
        simp [hspoiled, shows_ref_iff href hok]
      | @union variants w converted _ href hany hok hf hout =>
        simp only [href, hany, hok] at hbelow
        have hw := isDict_of_optional hshape hany hok
        have hbeside := hshape.beside (by rw [hany]; rfl)
        have hconverted := isDict_of_convert hdefs hw hf
        cases converted with
        | dict members =>
          obtain ⟨written, hwritten⟩ := nullable_dict node hconverted
          obtain rfl := Except.ok.inj (hout.symm.trans hwritten)
          rw [clean_nullable (fun o ho => unbanned_of_convert hdefs hw hf ho) hbeside hout,
            hbelow w (List.mem_singleton_self _) _ hf]
          have hspoiled : ¬ Spoiled (.dict node) ↔
              ∀ e ∈ node, e.1 ≠ "anyOf" → e.1 ∉ bannedKeys → FieldClean e := by
            rw [not_spoiled_iff href]
            exact forall₂_congr fun e he => not_spoiling_iff (hbeside e he)
          rw [hspoiled, and_comm]
          simp [shows_union_iff href hany hok]
        | _ => cases hconverted
      | @plain fields href hany hfields htuple =>
        simp only [href, hany, htuple, List.append_nil] at hbelow
        have hfree : ∀ o ∈ fields, o.1 ≠ "prefixItems" := by
          intro o ho
          have hkey : o.1 ∈ (strip node).map Prod.fst :=
            keys_of_fields hfields ▸ List.mem_map_of_mem ho
          obtain ⟨e, he, heq⟩ := List.mem_map.mp hkey
          rw [← heq]
          exact ne_of_lookup_none htuple (List.mem_of_mem_filter he)
        have hclean : Clean (.dict fields) ↔
            ∀ o ∈ fields, o.1 ≠ "prefixItems" → (o.1 = "items" → True) → FieldClean o := by
          rw [clean_dict_iff]
          exact forall₂_congr fun o ho => by simp [hfree o ho]
        rw [hclean, fields_iff hany hfields hbelow, fields_good_iff href]
        simp only [shows_plain_iff href hany htuple]
      | @tuple fields items first item href hany hfields htuple hok hf =>
        simp only [href, hany, htuple, hok] at hbelow
        have hfirst := isDict_of_sharedItem hshape htuple hok
        have hnodup : (fields.map Prod.fst).Nodup := by
          rw [keys_of_fields hfields]
          exact hshape.nodup.sublist (List.Sublist.map _ List.filter_sublist)
        have hitem : (item.truthy = true → Clean item) ↔ Tidy repr defs first := by
          rw [← hbelow first (List.mem_append_right _ (List.mem_singleton_self _)) item hf]
          refine ⟨fun hclean => ?_, fun hclean _ => hclean⟩
          cases htruthy : item.truthy with
          | true => exact hclean htruthy
          | false => exact clean_of_falsy htruthy
        rw [clean_flatArray hnodup, hitem, fields_iff hany hfields
          fun c hc => hbelow c (List.mem_append_left _ hc), fields_good_iff href, and_assoc]
        simp [shows_tuple_iff href hany htuple hok, falsy_iff_blank hdefs hfirst hf, or_imp,
          forall_and]
    | _ =>
      cases h
      exact iff_of_true (clean_of_not_dict rfl) (tidy_of_not_dict rfl)

/-! ## What the conversion comes to -/

/-- The values right in a value. -/
def partsOf : Json → List Json
  | .list items => items
  | .dict members => members.map Prod.snd
  | _ => []

theorem parts_wf : WellFounded fun c v => c ∈ partsOf v := by
  refine Subrelation.wf (r := fun c v : Json => sizeOf c < sizeOf v) ?_ (measure sizeOf).wf
  intro c v hc
  cases v with
  | list items =>
    have hlt : sizeOf c < sizeOf items := List.sizeOf_lt_of_mem hc
    have hsize : sizeOf (Json.list items) = 1 + sizeOf items := by simp
    omega
  | dict members =>
    obtain ⟨e, he, rfl⟩ := List.mem_map.mp hc
    obtain ⟨k, c⟩ := e
    have hlt := List.sizeOf_lt_of_mem he
    have hsize : sizeOf (Json.dict members) = 1 + sizeOf members := by simp
    have hpair : sizeOf (k, c) = 1 + sizeOf k + sizeOf c := by simp
    change sizeOf c < _
    omega
  | _ => cases hc

/-- The value has this one in it, at some depth. -/
def HasPart : Json → Json → Prop := Relation.ReflTransGen fun v c => c ∈ partsOf v

theorem part_of_lookup {node : List (String × Json)} {k : String} {v : Json}
    (h : node.lookup k = some v) : v ∈ partsOf (.dict node) :=
  List.mem_map_of_mem (mem_of_lookup h)

theorem mem_of_optional {variants v : Json} (h : optional repr variants = .ok v) :
    v ∈ partsOf variants := by
  cases variants with
  | list vs =>
    by_cases hall : vs.all Json.isDict = true
    · rcases optional_list repr hall with ⟨message, hbad⟩ | ⟨u, hu, hok⟩
      · rw [hbad] at h
        cases h
      · obtain rfl := Except.ok.inj (h.symm.trans hok)
        exact hu
    · simp only [optional, if_neg hall] at h
      cases h
  | _ => cases h

theorem mem_of_sharedItem {items first : Json} (h : sharedItem repr items = .ok first) :
    first ∈ partsOf items := by
  unfold sharedItem at h
  split at h
  · split at h
    · cases h
    · split at h
      · cases h
      · cases h
        exact List.mem_cons_self
  · cases h
  · cases h

/-- A call that the loop over the fields makes is for a part of the node. -/
theorem part_of_fieldCalls {node : List (String × Json)} {e : String × Json} {c : Json}
    (he : e ∈ node) (hc : c ∈ fieldCalls e) : HasPart (.dict node) c := by
  have hvalue : e.2 ∈ partsOf (.dict node) := List.mem_map_of_mem he
  unfold fieldCalls at hc
  split at hc
  · cases hc
  · split at hc
    · rename_i properties _ hproperties
      refine .head hvalue (.single ?_)
      rw [hproperties]
      exact hc
    · rw [List.mem_singleton.mp hc]
      exact .single hvalue
    · cases hc

theorem mem_of_toOption {x : Except Failure Json} {c : Json} (h : c ∈ x.toOption.toList) :
    x = .ok c := by
  cases x with
  | error e => cases h
  | ok v => rw [List.mem_singleton.mp h]

/-- Each call is for a part of the node, or for what a reference names. -/
theorem part_of_call {v c : Json} (hc : c ∈ callsOf repr defs v) :
    HasPart v c ∨ ∃ name, defs.lookup name = some c := by
  cases v with
  | dict node =>
    unfold callsOf at hc
    cases href : node.lookup "$ref" with
    | some ref =>
      simp only [href] at hc
      exact Or.inr (lookup_of_resolve (mem_of_toOption hc))
    | none =>
      left
      cases hany : node.lookup "anyOf" with
      | some variants =>
        simp only [href, hany] at hc
        exact .head (part_of_lookup hany) (.single (mem_of_optional (mem_of_toOption hc)))
      | none =>
        simp only [href, hany] at hc
        rcases List.mem_append.mp hc with hfield | htuple
        · obtain ⟨e, he, hc⟩ := List.mem_flatMap.mp hfield
          exact part_of_fieldCalls he hc
        · cases hitems : node.lookup "prefixItems" with
          | some items =>
            rw [hitems] at htuple
            have hfirst := mem_of_sharedItem (mem_of_toOption htuple)
            exact .head (part_of_lookup hitems) (.single hfirst)
          | none =>
            rw [hitems] at htuple
            cases htuple
  | _ => cases hc

theorem part_of_defs {raw c : Json} {name : String} (h : (defsOf raw).lookup name = some c) :
    HasPart raw c := by
  unfold defsOf at h
  split at h
  · rename_i defs hdefs
    cases raw with
    | dict node => exact .head (part_of_lookup hdefs) (.single (part_of_lookup h))
    | _ => cases hdefs
  · cases h

/-- The conversion of a schema comes to parts of it only. -/
theorem part_of_reaches {raw v : Json} (h : Reaches repr (defsOf raw) raw v) : HasPart raw v := by
  induction h with
  | refl => exact .refl
  | tail _ hcall ih =>
    rcases part_of_call hcall with hpart | ⟨name, hname⟩
    · exact ih.trans hpart
    · exact part_of_defs hname

/-! ## The conversion of a schema -/

/-- The schema is converted to one without a keyword that is not accepted, or to a
`GeminiSchemaError`. -/
structure CleanOrRefused (repr : Json → String) (raw : Json) : Prop where
  ends : ∃ depth, ∀ more ≥ depth, (∃ out, toGeminiSchema repr more raw = .ok out) ∨
    ∃ message, toGeminiSchema repr more raw = .error (.geminiSchemaError message)
  clean : ∀ depth out, toGeminiSchema repr depth raw = .ok out → Clean out

theorem ends_of_tells {b : Bool} {x : Except Failure Json} (h : Tells (some b) x) :
    (∃ out, x = .ok out) ∨ ∃ message, x = .error (.geminiSchemaError message) := by
  cases h with
  | refused message => exact Or.inr ⟨message, rfl⟩
  | accepted out => exact Or.inl ⟨out, rfl⟩

theorem tells_of_ends {b : Option Bool} {x : Except Failure Json} (h : Tells b x)
    (hends : (∃ out, x = .ok out) ∨ ∃ message, x = .error (.geminiSchemaError message)) :
    ∃ found, b = some found := by
  cases h with
  | cutOff =>
    rcases hends with ⟨out, hout⟩ | ⟨message, hmessage⟩
    · cases hout
    · cases hmessage
  | refused message => exact ⟨false, rfl⟩
  | accepted out => exact ⟨true, rfl⟩

theorem accepted_of_tells {b : Option Bool} {out : Json} (h : Tells b (.ok out)) :
    b = some true := by
  cases h with
  | accepted => rfl

theorem noCircle_iff_ends (raw : Json) :
    NoCircle (callsOf repr (defsOf raw)) (fun v => refused repr (defsOf raw) v = true) raw ↔
      Ends (callsOf repr (defsOf raw)) (fun v => refused repr (defsOf raw) v = true) raw := by
  refine (ends_iff_noCircle ((finite_below parts_wf raw).subset ?_)).symm
  intro v hv
  have hreaches : Reaches repr (defsOf raw) raw v := by
    refine Relation.ReflTransGen.mono ?_ _ _ hv
    rintro x c ⟨before, after, hcalls, -⟩
    rw [hcalls]
    exact List.mem_append_right _ List.mem_cons_self
  exact part_of_reaches hreaches

/-- A schema of pydantic is converted as it should be exactly where no node that the conversion
comes to is entered again below itself and, where it is not refused, no node that shows in what is
put out passes on as it is a keyword that is not accepted, or a schema with one in it. -/
theorem clean_or_refused_iff {raw : Json} (hraw : WellFormed repr raw) :
    CleanOrRefused repr raw ↔
      NoCircle (callsOf repr (defsOf raw)) (fun v => refused repr (defsOf raw) v = true) raw ∧
        (Accepted (callsOf repr (defsOf raw)) (fun v => refused repr (defsOf raw) v = true) raw →
          Tidy repr (defsOf raw) raw) := by
  have htells : ∀ depth, Tells _ (toGeminiSchema repr depth raw) := fun _ =>
    tells_convert hraw.defs hraw.nodes
  have hclean : ∀ depth out, toGeminiSchema repr depth raw = .ok out →
      (Clean out ↔ Tidy repr (defsOf raw) raw) := fun depth out hout =>
    clean_iff_tidy hraw.defs hraw.nodes hout
  rw [noCircle_iff_ends]
  constructor
  · rintro ⟨⟨depth, hends⟩, hall⟩
    obtain ⟨b, hvisit⟩ := tells_of_ends (htells depth) (hends depth le_rfl)
    refine ⟨ends_of_visit hvisit, fun haccepted => ?_⟩
    have htell := htells depth
    rw [hvisit, (visit_true_iff hvisit).mpr haccepted] at htell
    generalize hout : toGeminiSchema repr depth raw = x at htell
    cases htell with
    | accepted out => exact (hclean depth out hout).mp (hall depth out hout)
  · rintro ⟨hends, htidy⟩
    obtain ⟨depth, b, hvisit⟩ := visit_iff_ends.mpr hends
    constructor
    · refine ⟨depth, fun more hmore => ?_⟩
      have htell := htells more
      rw [visit_mono hmore hvisit] at htell
      exact ends_of_tells htell
    · intro depth out hout
      have htell := htells depth
      rw [hout] at htell
      exact (hclean depth out hout).mpr
        (htidy ((visit_true_iff (accepted_of_tells htell)).mp rfl))

/-! ## Schemas of three models -/

/-- The nodes that the conversion comes to are all in the list, and are as pydantic writes them. -/
theorem wellFormed_of_nodes (nodes : List (List (String × Json))) {raw : Json}
    (hdict : raw ∈ nodes.map .dict) (hdefs : ∀ e ∈ defsOf raw, e.2.isDict = true)
    (hclosed : ∀ node ∈ nodes, ∀ c ∈ callsOf repr (defsOf raw) (.dict node), c ∈ nodes.map .dict)
    (hshaped : ∀ node ∈ nodes, Shaped node) : WellFormed repr raw where
  dict := by
    obtain ⟨node, -, rfl⟩ := List.mem_map.mp hdict
    rfl
  defs := hdefs
  nodes node h := by
    have hmem : ∀ v, Reaches repr (defsOf raw) raw v → v ∈ nodes.map .dict := by
      intro v hv
      induction hv with
      | refl => exact hdict
      | tail _ hcall ih =>
        obtain ⟨node, hnode, rfl⟩ := List.mem_map.mp ih
        exact hclosed node hnode _ hcall
    obtain ⟨node', hnode', heq⟩ := List.mem_map.mp (hmem _ h)
    rw [← Json.dict.inj heq]
    exact hshaped node' hnode'

/-- A node with none of the keys that the conversion looks for. -/
theorem Shaped.plain {node : List (String × Json)} (hnodup : (node.map Prod.fst).Nodup)
    (href : node.lookup "$ref" = none) (hany : node.lookup "anyOf" = none)
    (htuple : node.lookup "prefixItems" = none) : Shaped node where
  nodup := hnodup
  ref := by simp [href]
  anyOf := by simp [hany]
  beside := by simp [hany]
  prefixItems := by simp [htuple]

/-- `page: int | None = None` -/
def pageSchema : List (String × Json) :=
  [("anyOf", .list [.dict [("type", .str "integer")], .dict [("type", .str "null")]]),
    ("default", .null), ("title", .str "Page")]

/-- `Citation` of the tests, with its page alone. -/
def citationSchema : List (String × Json) :=
  [("properties", .dict [("page", .dict pageSchema)]), ("title", .str "Citation"),
    ("type", .str "object")]

theorem page_shaped : Shaped pageSchema where
  nodup := by decide
  ref _ h := nomatch h
  anyOf variants h := by
    cases h
    exact ⟨_, rfl, rfl⟩
  beside := by simp [pageSchema, bannedKeys]
  prefixItems _ h := nomatch h

theorem citation_wellFormed : WellFormed (fun _ => "") (.dict citationSchema) := by
  refine wellFormed_of_nodes [citationSchema, pageSchema, [("type", .str "integer")]]
    List.mem_cons_self (by simp [defsOf, citationSchema, Json.get?, List.lookup_cons]) ?_ ?_
  · simp only [List.forall_mem_cons, List.not_mem_nil, false_implies, implies_true, and_true]
    refine ⟨?_, ?_, ?_⟩
    · change ∀ c ∈ [Json.dict pageSchema], _
      simp
    · change ∀ c ∈ [Json.dict [("type", .str "integer")]], _
      simp
    · change ∀ c ∈ [], _
      simp
  · simp only [List.forall_mem_cons, List.not_mem_nil, false_implies, implies_true, and_true]
    exact ⟨.plain (by decide) rfl rfl rfl, page_shaped, .plain (by decide) rfl rfl rfl⟩

theorem citation_is_converted : CleanOrRefused (fun _ => "") (.dict citationSchema) := by
  refine (clean_or_refused_iff citation_wellFormed).mpr ⟨?_, fun _ => ?_⟩
  · have hvisit : visit (callsOf (fun _ => "") []) (fun v => refused (fun _ => "") [] v = true) 3
        (.dict citationSchema) = some true := rfl
    exact noCircle_of_ends (ends_of_visit hvisit)
  · have hout : toGeminiSchema (fun _ => "") 3 (.dict citationSchema) = .ok (.dict
        [("properties", .dict
            [("page", .dict [("type", .str "integer"), ("nullable", .bool true)])]),
          ("type", .str "object")]) := rfl
    refine (clean_iff_tidy citation_wellFormed.defs citation_wellFormed.nodes hout).mp ?_
    simp [clean_dict_iff, FieldClean, under, notAccepted]

/-- `next: Node | None = None` -/
def nextSchema : List (String × Json) :=
  [("anyOf", .list [.dict [("$ref", .str "#/$defs/Node")], .dict [("type", .str "null")]]),
    ("default", .null)]

def nodeSchema : List (String × Json) :=
  [("properties", .dict [("next", .dict nextSchema)]), ("title", .str "Node"),
    ("type", .str "object")]

/-- A model `Node` with the one field `next`. -/
def chainSchema : List (String × Json) :=
  [("$defs", .dict [("Node", .dict nodeSchema)]), ("$ref", .str "#/$defs/Node")]

/-- `code: str = Field(pattern="^a")` -/
def codeSchema : List (String × Json) :=
  [("pattern", .str "^a"), ("title", .str "Code"), ("type", .str "string")]

/-- A model `Item` with the one field `code`. -/
def itemSchema : List (String × Json) :=
  [("properties", .dict [("code", .dict codeSchema)]), ("required", .list [.str "code"]),
    ("title", .str "Item"), ("type", .str "object")]

theorem next_shaped : Shaped nextSchema where
  nodup := by decide
  ref _ h := nomatch h
  anyOf variants h := by
    cases h
    exact ⟨_, rfl, rfl⟩
  beside := by simp [nextSchema, bannedKeys]
  prefixItems _ h := nomatch h

theorem Shaped.reference {node : List (String × Json)} {s : String}
    (hnodup : (node.map Prod.fst).Nodup) (href : node.lookup "$ref" = some (.str s))
    (hany : node.lookup "anyOf" = none) (htuple : node.lookup "prefixItems" = none) :
    Shaped node where
  nodup := hnodup
  ref ref h := ⟨s, Option.some.inj (h.symm.trans href)⟩
  anyOf := by simp [hany]
  beside := by simp [hany]
  prefixItems := by simp [htuple]

theorem chain_wellFormed : WellFormed (fun _ => "") (.dict chainSchema) := by
  refine wellFormed_of_nodes
    [chainSchema, nodeSchema, nextSchema, [("$ref", .str "#/$defs/Node")]]
    List.mem_cons_self (by simp [defsOf, chainSchema, Json.get?, Json.isDict]) ?_ ?_
  · simp only [List.forall_mem_cons, List.not_mem_nil, false_implies, implies_true, and_true]
    refine ⟨?_, ?_, ?_, ?_⟩
    · change ∀ c ∈ [Json.dict nodeSchema], _
      simp
    · change ∀ c ∈ [Json.dict nextSchema], _
      simp
    · change ∀ c ∈ [Json.dict [("$ref", .str "#/$defs/Node")]], _
      simp
    · change ∀ c ∈ [Json.dict nodeSchema], _
      simp
  · simp only [List.forall_mem_cons, List.not_mem_nil, false_implies, implies_true, and_true]
    exact ⟨.reference (by decide) rfl rfl rfl, .plain (by decide) rfl rfl rfl, next_shaped,
      .reference (by decide) rfl rfl rfl⟩

theorem item_wellFormed : WellFormed (fun _ => "") (.dict itemSchema) := by
  refine wellFormed_of_nodes [itemSchema, codeSchema]
    List.mem_cons_self (by simp [defsOf, itemSchema, Json.get?, List.lookup_cons]) ?_ ?_
  · simp only [List.forall_mem_cons, List.not_mem_nil, false_implies, implies_true, and_true]
    refine ⟨?_, ?_⟩
    · change ∀ c ∈ [Json.dict codeSchema], _
      simp
    · change ∀ c ∈ [], _
      simp
  · simp only [List.forall_mem_cons, List.not_mem_nil, false_implies, implies_true, and_true]
    exact ⟨.plain (by decide) rfl rfl rfl, .plain (by decide) rfl rfl rfl⟩

theorem chain_circle : ¬ NoCircle (callsOf (fun _ => "") [("Node", .dict nodeSchema)])
    (fun v => refused (fun _ => "") [("Node", .dict nodeSchema)] v = true)
    (.dict chainSchema) := by
  have henters : ∀ v c, callsOf (fun _ => "") [("Node", .dict nodeSchema)] v = [c] →
      Enters (callsOf (fun _ => "") [("Node", .dict nodeSchema)])
        (fun v => refused (fun _ => "") [("Node", .dict nodeSchema)] v = true) v c :=
    fun v c h => ⟨[], [], h, by simp⟩
  intro hno
  refine hno (.dict nodeSchema) (.single (henters _ _ rfl)) ?_
  exact .head (henters _ (.dict nextSchema) rfl)
    (.head (henters _ (.dict [("$ref", .str "#/$defs/Node")]) rfl) (.single (henters _ _ rfl)))

theorem chain_goes_on (depth : Nat) :
    toGeminiSchema (fun _ => "") depth (.dict chainSchema) = .error .recursionError := by
  have htells : Tells
      (visit (callsOf (fun _ => "") [("Node", .dict nodeSchema)])
        (fun v => refused (fun _ => "") [("Node", .dict nodeSchema)] v = true) depth
        (.dict chainSchema))
      (toGeminiSchema (fun _ => "") depth (.dict chainSchema)) :=
    tells_convert chain_wellFormed.defs chain_wellFormed.nodes
  generalize toGeminiSchema (fun _ => "") depth (.dict chainSchema) = x at htells ⊢
  generalize hvisit : visit _ (fun v => refused _ _ v = true) depth _ = b at htells
  cases htells with
  | cutOff => rfl
  | refused | accepted => exact absurd (noCircle_of_ends (ends_of_visit hvisit)) chain_circle

/-- The conversion of a model with a field of itself does not come to its end, and a pattern
stays. -/
theorem a_chain_goes_on_and_a_pattern_stays :
    WellFormed (fun _ => "") (.dict chainSchema) ∧
      (∀ depth, toGeminiSchema (fun _ => "") depth (.dict chainSchema) =
        .error .recursionError) ∧
      ¬ CleanOrRefused (fun _ => "") (.dict chainSchema) ∧
      WellFormed (fun _ => "") (.dict itemSchema) ∧
      (toGeminiSchema (fun _ => "") 3 (.dict itemSchema)) = .ok (.dict
        [("properties", .dict [("code", .dict [("pattern", .str "^a"), ("type", .str "string")])]),
          ("required", .list [.str "code"]), ("type", .str "object")]) ∧
      ¬ CleanOrRefused (fun _ => "") (.dict itemSchema) := by
  refine ⟨chain_wellFormed, chain_goes_on, ?_, item_wellFormed, rfl, ?_⟩
  · rintro ⟨⟨depth, hends⟩, -⟩
    have hend := hends depth le_rfl
    rw [chain_goes_on] at hend
    rcases hend with ⟨out, hout⟩ | ⟨message, hmessage⟩
    · cases hout
    · cases hmessage
  · rintro ⟨-, hclean⟩
    have hout := hclean 3 _ rfl
    have hcode := ((clean_dict_iff _).mp hout _ List.mem_cons_self).2 _ List.mem_cons_self
    exact ((clean_dict_iff _).mp hcode _ List.mem_cons_self).1 (by decide)

end orchestra.gemini_schema
