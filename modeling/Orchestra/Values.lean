-- The Python values that a workflow state holds, and the few things that the
-- engine asks of them: are they truthy, what do they iterate over, what is
-- their text.
import Orchestra.Lib.Dict

open dicts

namespace orchestra

/-! ## Values -/

/-- A value of the state. An `obj` is an instance of a class, with its fields. -/
inductive Value
  | none
  | bool (b : Bool)
  | int (i : Int)
  | str (s : String)
  | list (xs : List Value)
  | dict (items : List (String × Value))
  | obj (cls : String) (fields : List (String × Value))
deriving Repr

mutual

def Value.decEq : (a b : Value) → Decidable (a = b)
  | .none, .none => isTrue rfl
  | .bool a, .bool b => decidable_of_iff (a = b) (by simp)
  | .int a, .int b => decidable_of_iff (a = b) (by simp)
  | .str a, .str b => decidable_of_iff (a = b) (by simp)
  | .list a, .list b => @decidable_of_iff _ (a = b) (by simp) (Value.decEqList a b)
  | .dict a, .dict b => @decidable_of_iff _ (a = b) (by simp) (Value.decEqItems a b)
  | .obj c a, .obj d b =>
    @decidable_of_iff _ (c = d ∧ a = b) (by simp) (@instDecidableAnd _ _ _ (Value.decEqItems a b))
  | .none, .bool _ | .none, .int _ | .none, .str _ | .none, .list _ | .none, .dict _
  | .none, .obj _ _ | .bool _, .none | .bool _, .int _ | .bool _, .str _ | .bool _, .list _
  | .bool _, .dict _ | .bool _, .obj _ _ | .int _, .none | .int _, .bool _ | .int _, .str _
  | .int _, .list _ | .int _, .dict _ | .int _, .obj _ _ | .str _, .none | .str _, .bool _
  | .str _, .int _ | .str _, .list _ | .str _, .dict _ | .str _, .obj _ _ | .list _, .none
  | .list _, .bool _ | .list _, .int _ | .list _, .str _ | .list _, .dict _ | .list _, .obj _ _
  | .dict _, .none | .dict _, .bool _ | .dict _, .int _ | .dict _, .str _ | .dict _, .list _
  | .dict _, .obj _ _ | .obj _ _, .none | .obj _ _, .bool _ | .obj _ _, .int _
  | .obj _ _, .str _ | .obj _ _, .list _ | .obj _ _, .dict _ => isFalse (by simp)

def Value.decEqList : (a b : List Value) → Decidable (a = b)
  | [], [] => isTrue rfl
  | x :: xs, y :: ys =>
    @decidable_of_iff _ (x = y ∧ xs = ys) (by simp)
      (@instDecidableAnd _ _ (Value.decEq x y) (Value.decEqList xs ys))
  | [], _ :: _ | _ :: _, [] => isFalse (by simp)

def Value.decEqItems : (a b : List (String × Value)) → Decidable (a = b)
  | [], [] => isTrue rfl
  | (k, x) :: xs, (l, y) :: ys =>
    @decidable_of_iff _ (k = l ∧ x = y ∧ xs = ys) (by simp [and_assoc])
      (@instDecidableAnd _ _ _
        (@instDecidableAnd _ _ (Value.decEq x y) (Value.decEqItems xs ys)))
  | [], _ :: _ | _ :: _, [] => isFalse (by simp)

end

instance : DecidableEq Value := Value.decEq

/-- A Python dict with string keys: the state of an untyped graph, a partial
update, the arguments of a tool. -/
abbrev PyDict := Dict String Value

namespace Value

/-- `bool(v)` in Python. -/
def truthy : Value → Bool
  | .none => false
  | .bool b => b
  | .int i => i ≠ 0
  | .str s => s ≠ ""
  | .list xs => !xs.isEmpty
  | .dict items => !items.isEmpty
  | .obj _ _ => true

def ofDict (d : PyDict) : Value := .dict d.entries

/-- `v.get(key)` for a dict, `getattr(v, key)` for an object. -/
def field (v : Value) (key : String) : Option Value :=
  match v with
  | .dict items | .obj _ items => items.lookup key
  | _ => Option.none

mutual

/-- `repr(v)`. No letter of a string is escaped. -/
def repr : Value → String
  | .none => "None"
  | .bool b => if b then "True" else "False"
  | .int i => toString i
  | .str s => "'" ++ s ++ "'"
  | .list xs => "[" ++ ", ".intercalate (reprList xs) ++ "]"
  | .dict items => "\x7b" ++ ", ".intercalate (reprItems items) ++ "\x7d"
  | .obj cls fields => cls ++ "(" ++ ", ".intercalate (reprFields fields) ++ ")"

def reprList : List Value → List String
  | [] => []
  | x :: xs => repr x :: reprList xs

def reprItems : List (String × Value) → List String
  | [] => []
  | (k, x) :: xs => ("'" ++ k ++ "': " ++ repr x) :: reprItems xs

def reprFields : List (String × Value) → List String
  | [] => []
  | (k, x) :: xs => (k ++ "=" ++ repr x) :: reprFields xs

end

mutual

/-- The value with a number for a Boolean and with the keys of its dicts in order. -/
def normal : Value → Value
  | .bool b => .int (if b then 1 else 0)
  | .list xs => .list (normalList xs)
  | .dict items => .dict (sortByKey (normalItems items))
  | .obj cls fields => .obj cls (sortByKey (normalItems fields))
  | v => v

def normalList : List Value → List Value
  | [] => []
  | x :: xs => normal x :: normalList xs

def normalItems : List (String × Value) → List (String × Value)
  | [] => []
  | (k, x) :: xs => (k, normal x) :: normalItems xs

end

/-- `v == w`. `True` is equal to `1`, and the order of the keys of a dict does not matter. -/
def equals (v w : Value) : Bool := v.normal = w.normal

/-- `str(v)` -/
def text : Value → String
  | .str s => s
  | v => v.repr

end Value

/-! ## Exceptions -/

/-- An exception that code outside of the engine raises: a node function, a
condition, a mapper, an agent. `known` says that it is an `AgentError`, a
`GraphCompileError` or a `ProviderError`, which the engine lets pass. -/
structure Raised where
  type : String
  message : String
  known : Bool
deriving DecidableEq, Repr

def typeError (message : String) : Raised := ⟨"TypeError", message, false⟩

/-- `for x in v` in Python: the items of a list, the letters of a string, the
keys of a dict. -/
def Value.iterate : Value → Except Raised (List Value)
  | .list xs => .ok xs
  | .str s => .ok (s.toList.map (fun c => .str c.toString))
  | .dict items => .ok (items.map (fun e => .str e.1))
  | .none => .error (typeError "'NoneType' object is not iterable")
  | .bool _ => .error (typeError "'bool' object is not iterable")
  | .int _ => .error (typeError "'int' object is not iterable")
  | .obj cls _ => .error (typeError ("'" ++ cls ++ "' object is not iterable"))

/-- `['a', 'b']`, the text of a list of plain names. -/
def listText (names : List String) : String :=
  "[" ++ ", ".intercalate (names.map (fun n => "'" ++ n ++ "'")) ++ "]"

end orchestra
