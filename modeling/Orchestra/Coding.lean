-- Values as JSON texts (`state_serialization.py`, the two JSON columns of a
-- checkpoint): what is written of a state, and what is read of it again.
import Orchestra.Edges
import Orchestra.Lib.Json

open dicts jsons orchestra.edges

namespace orchestra.coding

/-! ## Values -/

/-- What `_json_fallback` makes of an instance of a class. -/
abbrev Fallback := String → List (String × Value) → Json

mutual

def jsonOf (fallback : Fallback) : Value → Json
  | .none => .null
  | .bool b => .bool b
  | .int i => .int i
  | .str s => .str s
  | .list xs => .arr (jsonOfList fallback xs)
  | .dict items => .obj (jsonOfItems fallback items)
  | .obj cls fields => fallback cls fields

def jsonOfList (fallback : Fallback) : List Value → List Json
  | [] => []
  | x :: xs => jsonOf fallback x :: jsonOfList fallback xs

def jsonOfItems (fallback : Fallback) : List (String × Value) → List (String × Json)
  | [] => []
  | (k, x) :: xs => (k, jsonOf fallback x) :: jsonOfItems fallback xs

end

mutual

def valueOf : Json → Value
  | .null => .none
  | .bool b => .bool b
  | .int i => .int i
  | .str s => .str s
  | .arr items => .list (valueOfList items)
  | .obj members => .dict (valueOfItems members)

def valueOfList : List Json → List Value
  | [] => []
  | x :: xs => valueOf x :: valueOfList xs

def valueOfItems : List (String × Json) → List (String × Value)
  | [] => []
  | (k, x) :: xs => (k, valueOf x) :: valueOfItems xs

end

mutual

/-- The value has no instance of a class in it, and no dict with a key twice. -/
def JsonValued : Value → Prop
  | .list xs => JsonValuedList xs
  | .dict items => (items.map Prod.fst).Nodup ∧ JsonValuedItems items
  | .obj _ _ => False
  | _ => True

def JsonValuedList : List Value → Prop
  | [] => True
  | x :: xs => JsonValued x ∧ JsonValuedList xs

def JsonValuedItems : List (String × Value) → Prop
  | [] => True
  | (_, x) :: xs => JsonValued x ∧ JsonValuedItems xs

end

@[simp] theorem keys_jsonOfItems (fallback : Fallback) (items : List (String × Value)) :
    (jsonOfItems fallback items).map Prod.fst = items.map Prod.fst := by
  induction items with
  | nil => rfl
  | cons e items ih => simp [jsonOfItems, ih]

@[simp] theorem keys_valueOfItems (members : List (String × Json)) :
    (valueOfItems members).map Prod.fst = members.map Prod.fst := by
  induction members with
  | nil => rfl
  | cons e members ih => simp [valueOfItems, ih]

mutual

theorem distinct_jsonOf (fallback : Fallback) (v : Value) (h : JsonValued v) :
    (jsonOf fallback v).Distinct := by
  match v with
  | .none | .bool _ | .int _ | .str _ => trivial
  | .list xs => exact distinct_jsonOfList fallback xs h
  | .dict items =>
    refine ⟨?_, distinct_jsonOfItems fallback items h.2⟩
    rw [keys_jsonOfItems]
    exact h.1
  | .obj _ _ => exact absurd h (by simp [JsonValued])

theorem distinct_jsonOfList (fallback : Fallback) (xs : List Value) (h : JsonValuedList xs) :
    DistinctItems (jsonOfList fallback xs) := by
  match xs with
  | [] => trivial
  | x :: xs => exact ⟨distinct_jsonOf fallback x h.1, distinct_jsonOfList fallback xs h.2⟩

theorem distinct_jsonOfItems (fallback : Fallback) (items : List (String × Value))
    (h : JsonValuedItems items) : DistinctMembers (jsonOfItems fallback items) := by
  match items with
  | [] => trivial
  | (_, x) :: items =>
    exact ⟨distinct_jsonOf fallback x h.1, distinct_jsonOfItems fallback items h.2⟩

end

mutual

theorem valueOf_jsonOf (fallback : Fallback) (v : Value) (h : JsonValued v) :
    valueOf (jsonOf fallback v) = v := by
  match v with
  | .none | .bool _ | .int _ | .str _ => rfl
  | .list xs => exact congrArg Value.list (valueOfList_jsonOfList fallback xs h)
  | .dict items => exact congrArg Value.dict (valueOfItems_jsonOfItems fallback items h.2)
  | .obj _ _ => exact absurd h (by simp [JsonValued])

theorem valueOfList_jsonOfList (fallback : Fallback) (xs : List Value) (h : JsonValuedList xs) :
    valueOfList (jsonOfList fallback xs) = xs := by
  match xs with
  | [] => rfl
  | x :: xs =>
    simp only [jsonOfList, valueOfList]
    rw [valueOf_jsonOf fallback x h.1, valueOfList_jsonOfList fallback xs h.2]

theorem valueOfItems_jsonOfItems (fallback : Fallback) (items : List (String × Value))
    (h : JsonValuedItems items) : valueOfItems (jsonOfItems fallback items) = items := by
  match items with
  | [] => rfl
  | (_, x) :: items =>
    simp only [jsonOfItems, valueOfItems]
    rw [valueOf_jsonOf fallback x h.1, valueOfItems_jsonOfItems fallback items h.2]

end

mutual

theorem jsonValued_valueOf (j : Json) (h : j.Distinct) : JsonValued (valueOf j) := by
  match j with
  | .null | .bool _ | .int _ | .str _ => trivial
  | .arr items => exact jsonValued_valueOfList items h
  | .obj members =>
    refine ⟨?_, jsonValued_valueOfItems members h.2⟩
    rw [keys_valueOfItems]
    exact h.1

theorem jsonValued_valueOfList (items : List Json) (h : DistinctItems items) :
    JsonValuedList (valueOfList items) := by
  match items with
  | [] => trivial
  | x :: items => exact ⟨jsonValued_valueOf x h.1, jsonValued_valueOfList items h.2⟩

theorem jsonValued_valueOfItems (members : List (String × Json)) (h : DistinctMembers members) :
    JsonValuedItems (valueOfItems members) := by
  match members with
  | [] => trivial
  | (_, x) :: members => exact ⟨jsonValued_valueOf x h.1, jsonValued_valueOfItems members h.2⟩

end

/-! ## Equal values -/

/-- Values that are equal whatever the order of the keys in their dicts. -/
inductive Same : Value → Value → Prop
  | none : Same .none .none
  | bool (b : Bool) : Same (.bool b) (.bool b)
  | int (i : Int) : Same (.int i) (.int i)
  | str (s : String) : Same (.str s) (.str s)
  | list {xs ys : List Value} (items : List.Forall₂ Same xs ys) : Same (.list xs) (.list ys)
  | dict {xs ys : List (String × Value)}
    (items : ∀ key, Option.Rel Same (xs.lookup key) (ys.lookup key)) : Same (.dict xs) (.dict ys)
  | obj (cls : String) (fields : List (String × Value)) : Same (.obj cls fields) (.obj cls fields)

def SameState (a b : PyDict) : Prop := Same (.dict a.entries) (.dict b.entries)

mutual

theorem Same.refl (v : Value) : Same v v := by
  match v with
  | .none => exact .none
  | .bool b => exact .bool b
  | .int i => exact .int i
  | .str s => exact .str s
  | .list xs => exact .list (same_list xs)
  | .dict items => exact .dict (same_items items)
  | .obj cls fields => exact .obj cls fields

theorem same_list (xs : List Value) : List.Forall₂ Same xs xs := by
  match xs with
  | [] => exact .nil
  | x :: xs => exact .cons (Same.refl x) (same_list xs)

theorem same_items (items : List (String × Value)) (key : String) :
    Option.Rel Same (items.lookup key) (items.lookup key) := by
  match items with
  | [] => exact .none
  | (k, x) :: items =>
    rw [List.lookup_cons]
    split
    · exact .some (Same.refl x)
    · exact same_items items key

end

mutual

theorem Same.symm {v w : Value} (h : Same v w) : Same w v := by
  match v, h with
  | _, .none => exact .none
  | _, .bool b => exact .bool b
  | _, .int i => exact .int i
  | _, .str s => exact .str s
  | .list xs, .list items => exact .list (same_list_symm xs items)
  | .dict xs, .dict items => exact .dict (fun key => same_items_symm xs key (items key))
  | _, .obj cls fields => exact .obj cls fields

theorem same_list_symm (xs : List Value) {ys : List Value} (h : List.Forall₂ Same xs ys) :
    List.Forall₂ Same ys xs := by
  match xs, h with
  | [], .nil => exact .nil
  | _ :: xs, .cons first rest => exact .cons first.symm (same_list_symm xs rest)

theorem same_items_symm (xs : List (String × Value)) (key : String) {w : Option Value}
    (h : Option.Rel Same (xs.lookup key) w) : Option.Rel Same w (xs.lookup key) := by
  match xs with
  | [] =>
    cases h
    exact .none
  | (k, x) :: xs =>
    rw [List.lookup_cons] at h ⊢
    split at h
    · cases h with
      | some hx => exact .some hx.symm
    · exact same_items_symm xs key h

end

mutual

theorem Same.trans {u v w : Value} (h1 : Same u v) (h2 : Same v w) : Same u w := by
  match u, h1 with
  | _, .none => exact h2
  | _, .bool b => exact h2
  | _, .int i => exact h2
  | _, .str s => exact h2
  | .list xs, .list items =>
    cases h2 with
    | list items' => exact .list (same_list_trans xs items items')
  | .dict xs, .dict items =>
    cases h2 with
    | dict items' => exact .dict (fun key => same_items_trans xs key (items key) (items' key))
  | _, .obj cls fields => exact h2

theorem same_list_trans (xs : List Value) {ys zs : List Value} (h1 : List.Forall₂ Same xs ys)
    (h2 : List.Forall₂ Same ys zs) : List.Forall₂ Same xs zs := by
  match xs, h1, h2 with
  | [], .nil, .nil => exact .nil
  | _ :: xs, .cons first rest, .cons first' rest' =>
    exact .cons (first.trans first') (same_list_trans xs rest rest')

theorem same_items_trans (xs : List (String × Value)) (key : String) {v w : Option Value}
    (h1 : Option.Rel Same (xs.lookup key) v) (h2 : Option.Rel Same v w) :
    Option.Rel Same (xs.lookup key) w := by
  match xs with
  | [] =>
    cases h1
    exact h2
  | (k, x) :: xs =>
    rw [List.lookup_cons] at h1 ⊢
    split at h1
    · cases h1 with
      | some hx =>
        cases h2 with
        | some hy => exact .some (hx.trans hy)
    · exact same_items_trans xs key h1 h2

end

theorem SameState.refl (d : PyDict) : SameState d d := Same.refl _

theorem sameState_iff {d e : PyDict} :
    SameState d e ↔ ∀ key, Option.Rel Same (d.get? key) (e.get? key) := by
  constructor
  · intro h
    unfold SameState at h
    cases h with
    | dict items => exact items
  · intro h
    exact .dict h

/-- Equal states take the same update to equal states. -/
theorem SameState.update {d e : PyDict} (h : SameState d e) (u : PyDict) :
    SameState (d.update u) (e.update u) := by
  rw [sameState_iff] at h ⊢
  intro key
  unfold Dict.update
  rw [Dict.get?_setAll d u.nodup, Dict.get?_setAll e u.nodup]
  rcases u.entries.lookup key with _ | v
  · exact h key
  · exact .some (Same.refl v)

/-! ## States -/

/-- `safe_serialize(state)`, of a dict. -/
def safeSerialize (fallback : Fallback) (state : PyDict) : String :=
  dumps (.obj (jsonOfItems fallback state.entries))

/-- A JSON value as the state of a checkpoint, which must be a dict. -/
def stateOf : Json → Option PyDict
  | .obj members => some (Dict.ofList (valueOfItems members))
  | _ => none

theorem foldl_set_entries {α : Type} (es : List (String × α)) (d : Dict String α)
    (h : ((d.entries ++ es).map Prod.fst).Nodup) :
    (d.setAll es).entries = d.entries ++ es := by
  induction es generalizing d with
  | nil => simp [Dict.setAll]
  | cons e es ih =>
    have hnot : e.1 ∉ d.keys := by
      rw [List.map_append, List.nodup_append] at h
      exact fun hmem => h.2.2 e.1 hmem e.1 (by simp) rfl
    have hstep := Dict.entries_set_of_not_mem hnot e.2
    have hset : ((d.set e.1 e.2).entries ++ es).map Prod.fst =
        (d.entries ++ e :: es).map Prod.fst := by
      rw [hstep]
      simp
    have hall : d.setAll (e :: es) = (d.set e.1 e.2).setAll es := rfl
    rw [hall, ih _ (hset ▸ h), hstep]
    simp

theorem entries_ofList {α : Type} {es : List (String × α)} (h : (es.map Prod.fst).Nodup) :
    (Dict.ofList es).entries = es :=
  foldl_set_entries es Dict.empty h

theorem ofList_entries {α : Type} (d : Dict String α) : Dict.ofList d.entries = d :=
  Dict.ext_entries (entries_ofList d.nodup)

theorem loads_safeSerialize (fallback : Fallback) {state : PyDict}
    (h : JsonValuedItems state.entries) :
    loads (safeSerialize fallback state) = some (.obj (jsonOfItems fallback state.entries)) := by
  apply loads_dumps
  refine ⟨?_, distinct_jsonOfItems fallback _ h⟩
  rw [keys_jsonOfItems]
  exact state.nodup

/-- The state comes back from its text just when it is JSON. -/
theorem stateOf_safeSerialize_iff (fallback : Fallback) (state : PyDict) :
    (loads (safeSerialize fallback state)).bind stateOf = some state ↔
      JsonValuedItems state.entries := by
  constructor
  · intro h
    obtain ⟨j, hj, hstate⟩ := Option.bind_eq_some_iff.mp h
    have hdistinct := loads_distinct hj
    cases j with
    | obj members =>
      cases hstate
      have hnodup : ((valueOfItems members).map Prod.fst).Nodup := by
        rw [keys_valueOfItems]
        exact hdistinct.1
      rw [entries_ofList hnodup]
      exact jsonValued_valueOfItems members hdistinct.2
    | _ => cases hstate
  · intro h
    rw [loads_safeSerialize fallback h, Option.bind_some, stateOf,
      valueOfItems_jsonOfItems fallback _ h, ofList_entries]

/-! ## The execution context -/

def counterOf : String × Json → Option (String × Int)
  | (k, .int i) => some (k, i)
  | _ => none

/-- A JSON value as the loop counters of a checkpoint. -/
def countersOf : Json → Option Counters
  | .obj members => (members.mapM counterOf).map Dict.ofList
  | _ => none

def nameOf : Json → Option String
  | .str s => some s
  | _ => none

/-- A JSON value as the execution order of a checkpoint. -/
def orderOf : Json → Option (List String)
  | .arr items => items.mapM nameOf
  | _ => none

/-- The JSON of the loop counters and the execution order. -/
def contextJson (loopCounters : Counters) (nodeExecutionOrder : List String) : Json :=
  .obj [("loop_counters", .obj (loopCounters.entries.map (fun e => (e.1, .int e.2)))),
    ("node_execution_order", .arr (nodeExecutionOrder.map .str))]

/-- `ctx.get(key, default)` -/
def contextField (ctx : List (String × Json)) (key : String) (default : Json) : Json :=
  (ctx.lookup key).getD default

theorem contextField_loop_counters (x y default : Json) :
    contextField [("loop_counters", x), ("node_execution_order", y)] "loop_counters" default = x :=
  rfl

theorem contextField_node_execution_order (x y default : Json) :
    contextField [("loop_counters", x), ("node_execution_order", y)] "node_execution_order"
      default = y :=
  rfl

theorem distinct_counters (es : List (String × Int)) :
    DistinctMembers (es.map (fun e => (e.1, Json.int e.2))) := by
  induction es with
  | nil => trivial
  | cons e es ih => exact ⟨trivial, ih⟩

theorem distinct_names (names : List String) : DistinctItems (names.map Json.str) := by
  induction names with
  | nil => trivial
  | cons n names ih => exact ⟨trivial, ih⟩

theorem distinct_contextJson (loopCounters : Counters) (order : List String) :
    (contextJson loopCounters order).Distinct := by
  have hkeys : (loopCounters.entries.map (fun e => (e.1, Json.int e.2))).map Prod.fst =
      loopCounters.keys := by
    simp [Dict.keys]
  refine ⟨by simp, ⟨?_, distinct_counters _⟩, distinct_names order, trivial⟩
  rw [hkeys]
  exact loopCounters.nodup

theorem mapM_counterOf (es : List (String × Int)) :
    (es.map (fun e => (e.1, Json.int e.2))).mapM counterOf = some es := by
  induction es with
  | nil => rfl
  | cons e es ih => simp [List.mapM_cons, counterOf, ih]

theorem mapM_nameOf (names : List String) : (names.map Json.str).mapM nameOf = some names := by
  induction names with
  | nil => rfl
  | cons n names ih => simp [List.mapM_cons, nameOf, ih]

theorem countersOf_counters (loopCounters : Counters) :
    countersOf (.obj (loopCounters.entries.map (fun e => (e.1, .int e.2)))) =
      some loopCounters := by
  rw [countersOf, mapM_counterOf, Option.map_some, ofList_entries]

theorem orderOf_names (names : List String) : orderOf (.arr (names.map .str)) = some names :=
  mapM_nameOf names

end orchestra.coding
