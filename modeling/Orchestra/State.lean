-- The state engine of `state.py`: reducers, the state class of a graph, and
-- how a partial update goes into a state.
import Orchestra.Errors

open dicts

namespace orchestra.state

/-! ## Reducers -/

structure Reducer where
  name : String
  reduce : Value → Value → Except Raised Value

/-- A number, as arithmetic reads it: `True` is 1 and `False` is 0. -/
def number : Value → Option Int
  | .bool b => some (if b then 1 else 0)
  | .int i => some i
  | _ => none

/-- `existing + new` on lists, strings and numbers. -/
def plus (existing new : Value) : Except Raised Value :=
  match existing, new with
  | .list xs, .list ys => .ok (.list (xs ++ ys))
  | .str s, .str t => .ok (.str (s ++ t))
  | a, b =>
    match number a, number b with
    | some x, some y => .ok (.int (x + y))
    | _, _ => .error (typeError "unsupported operand type(s) for +")

def mergeList : Reducer := ⟨"merge_list", plus⟩

def sumNumbers : Reducer := ⟨"sum_numbers", plus⟩

def concatStr : Reducer := ⟨"concat_str", plus⟩

def mergeDict : Reducer where
  name := "merge_dict"
  reduce existing new :=
    match existing, new with
    | .dict a, .dict b => .ok (.ofDict ((Dict.ofList a).setAll b))
    | _, _ => .error (typeError "argument is not a mapping")

def lastWriteWins : Reducer := ⟨"last_write_wins", fun _ new => .ok new⟩

def keepFirst : Reducer := ⟨"keep_first", fun existing _ => .ok existing⟩

/-- `max` or `min` of two numbers. The first argument wins a tie. -/
def pickNumber (better : Int → Int → Bool) (existing new : Value) : Except Raised Value :=
  match number existing, number new with
  | some x, some y => .ok (if better y x then new else existing)
  | _, _ => .error (typeError "'>' not supported between these instances")

def maxValue : Reducer := ⟨"max_value", pickNumber (fun y x => x < y)⟩

def minValue : Reducer := ⟨"min_value", pickNumber (fun y x => y < x)⟩

/-! ## The state class -/

/-- The key under which the engine shows the loop counters to a condition. -/
def loopCountersKey : String := "__loop_counters__"

/-- A subclass of `WorkflowState`. `validate` is `model_validate` followed by
`model_dump`, which pydantic provides; the last four fields say what the
engine relies on: a dump has the fields of the class, validation leaves a dump
as it is and ignores every key that is not a field, and no field has the name
of the loop counters (pydantic takes no field with a leading underscore). -/
structure Schema where
  name : String
  fields : List String
  reducers : Dict String Reducer
  validate : PyDict → Except String PyDict
  keys_validate : ∀ d s, validate d = .ok s → s.keys = fields
  validate_dump : ∀ d s, validate d = .ok s → validate s = .ok s
  validate_extra : ∀ d k v, k ∉ fields → validate (d.set k v) = validate d
  no_counters : loopCountersKey ∉ fields

/-- The class whose fields all have the type `Any` and a default. -/
def Schema.ofDefaults (name : String) (defaults : PyDict) (reducers : Dict String Reducer)
    (h : loopCountersKey ∉ defaults.keys) : Schema where
  name
  fields := defaults.keys
  reducers
  validate d := .ok (defaults.mapValues (fun k v => (d.get? k).getD v))
  keys_validate d s hs := by
    cases hs
    exact Dict.keys_mapValues _ _
  validate_dump d s hs := by
    cases hs
    congr 1
    apply Dict.ext_of_keys
    · simp [Dict.keys_mapValues]
    · intro k
      simp only [Dict.get?_mapValues]
      cases defaults.get? k <;> simp
  validate_extra d k v hk := by
    congr 1
    apply Dict.ext_of_keys
    · simp [Dict.keys_mapValues]
    · intro j
      simp only [Dict.get?_mapValues]
      cases hj : defaults.get? j with
      | none => rfl
      | some w =>
        have hne : k ≠ j := fun e =>
          hk ((Dict.mem_keys_iff _ _).mpr ⟨w, by rw [e]; exact hj⟩)
        simp [Dict.get?_set_ne d v hne]
  no_counters := h

/-! ## An update on a state of a class -/

/-- The loop of `apply_state_update`. The reducers read the state before the
update, also when the update has many keys. -/
def updateFields (S : Schema) (current : PyDict) :
    List (String × Value) → PyDict → Except EngineError PyDict
  | [], new => .ok new
  | (key, value) :: rest, new =>
    match current.get? key with
    | none => .error (.unknownField key S.name current.keys)
    | some old =>
      match S.reducers.get? key with
      | none => updateFields S current rest (new.set key value)
      | some r =>
        match r.reduce old value with
        | .ok w => updateFields S current rest (new.set key w)
        | .error e => .error (.reducerFailed r.name key old value e.message)

def validateState (S : Schema) (d : PyDict) : Except EngineError PyDict :=
  match S.validate d with
  | .ok s => .ok s
  | .error e => .error (.validationFailed S.name e)

def applyStateUpdate (S : Schema) (current update : PyDict) : Except EngineError PyDict :=
  match updateFields S current update.entries current with
  | .ok new => validateState S new
  | .error e => .error e

def mergeParallelUpdates (S : Schema) : PyDict → List PyDict → Except EngineError PyDict
  | current, [] => .ok current
  | current, update :: rest =>
    match applyStateUpdate S current update with
    | .ok new => mergeParallelUpdates S new rest
    | .error e => .error e

theorem validateState_dump {S : Schema} {d s : PyDict} (h : validateState S d = .ok s) :
    S.validate s = .ok s := by
  unfold validateState at h
  split at h
  · rename_i s' hs
    cases h
    exact S.validate_dump d _ hs
  · cases h

theorem applyStateUpdate_dump {S : Schema} {current update s : PyDict}
    (h : applyStateUpdate S current update = .ok s) : S.validate s = .ok s := by
  unfold applyStateUpdate at h
  split at h
  · exact validateState_dump h
  · cases h

theorem mergeParallelUpdates_dump {S : Schema} {current s : PyDict} {updates : List PyDict}
    (hc : S.validate current = .ok current)
    (h : mergeParallelUpdates S current updates = .ok s) : S.validate s = .ok s := by
  induction updates generalizing current with
  | nil =>
    cases h
    exact hc
  | cons update rest ih =>
    unfold mergeParallelUpdates at h
    split at h
    · rename_i new hnew
      exact ih (applyStateUpdate_dump hnew) h
    · cases h

/-! ## The errors of an update -/

/-- The error of an update comes from the state engine. -/
def StateError : EngineError → Prop
  | .unknownField .. | .reducerFailed .. | .validationFailed .. => True
  | _ => False

theorem stateError_updateFields {S : Schema} {current new : PyDict} {es : List (String × Value)}
    {e : EngineError} (h : updateFields S current es new = .error e) : StateError e := by
  induction es generalizing new with
  | nil => cases h
  | cons entry rest ih =>
    obtain ⟨key, value⟩ := entry
    unfold updateFields at h
    split at h
    · cases h
      trivial
    split at h
    · exact ih h
    split at h
    · exact ih h
    · cases h
      trivial

theorem stateError_apply {S : Schema} {current update : PyDict} {e : EngineError}
    (h : applyStateUpdate S current update = .error e) : StateError e := by
  unfold applyStateUpdate at h
  split at h
  · unfold validateState at h
    split at h
    · cases h
    · cases h
      trivial
  · rename_i e' he
    cases h
    exact stateError_updateFields he

theorem stateError_merge {S : Schema} {current : PyDict} {updates : List PyDict}
    {e : EngineError} (h : mergeParallelUpdates S current updates = .error e) : StateError e := by
  induction updates generalizing current with
  | nil => cases h
  | cons update rest ih =>
    unfold mergeParallelUpdates at h
    split at h
    · exact ih h
    · rename_i e' he
      cases h
      exact stateError_apply he

end orchestra.state
