-- What the diligence agents read of a model: the text of an answer without its fences
-- (`agents/base.py`), the JSON in it, and what Python makes of a value of that JSON.
import Orchestra.Lib.Text
import Orchestra.Tprm.Schemas

open texts orchestra.tprm.schemas

namespace orchestra.tprm.answers

/-! ## JSON -/

/-- A float, by what the agents ask of it: `str(x)`, `bool(x)` and `int(x)`. -/
structure PyFloat where
  text : String
  truthy : Bool
  toInt : Except Raised Int

/-- What `json.loads` returns. -/
inductive Json
  | null
  | bool (b : Bool)
  | int (i : Int)
  | float (x : PyFloat)
  | str (s : String)
  | list (items : List Json)
  | dict (members : List (String × Json))

/-- What `json.loads` raises: a `JSONDecodeError`, or another error (an integer with too many
digits, brackets too deep). -/
inductive LoadError
  | decode (message : String)
  | other (error : Raised)

/-- What the agents take from Python and from pydantic: `json.loads`, `repr(s)` and `int(s)` of
a string, the letters of `\w`, a value for a field `int | None`, `RemediationItem(**raw)` where
it is valid, and the text of a list of findings, which is an error when it nests too deep. -/
structure Reader where
  loads : String → Except LoadError Json
  reprStr : String → String
  intOfText : String → Except Raised Int
  isWord : Char → Bool
  intOrNone : Json → Except Raised (Option Int)
  remediationItem : List (String × Json) → Option RemediationItem
  dumpFindings : List Finding → Except Raised String

namespace Json

/-- `type(v).__name__` -/
def typeName : Json → String
  | null => "NoneType"
  | bool _ => "bool"
  | int _ => "int"
  | float _ => "float"
  | str _ => "str"
  | list _ => "list"
  | dict _ => "dict"

/-- `bool(v)` -/
def truthy : Json → Bool
  | null => false
  | bool b => b
  | int i => i ≠ 0
  | float x => x.truthy
  | str s => s ≠ ""
  | list items => !items.isEmpty
  | dict members => !members.isEmpty

/-- `for x in v` -/
def iterate : Json → Except Raised (List Json)
  | str s => .ok (s.toList.map (fun c => str c.toString))
  | list items => .ok items
  | dict members => .ok (members.map (fun e => str e.1))
  | v => .error (typeError ("'" ++ v.typeName ++ "' object is not iterable"))

/-- `v.get(key)` of a dict. -/
def get? (members : List (String × Json)) (key : String) : Option Json := members.lookup key

mutual

/-- `repr(v)` -/
def repr (R : Reader) : Json → String
  | null => "None"
  | bool b => if b then "True" else "False"
  | int i => toString i
  | float x => x.text
  | str s => R.reprStr s
  | list items => "[" ++ ", ".intercalate (reprItems R items) ++ "]"
  | dict members => "\x7b" ++ ", ".intercalate (reprMembers R members) ++ "\x7d"

def reprItems (R : Reader) : List Json → List String
  | [] => []
  | v :: rest => repr R v :: reprItems R rest

def reprMembers (R : Reader) : List (String × Json) → List String
  | [] => []
  | (k, v) :: rest => (R.reprStr k ++ ": " ++ repr R v) :: reprMembers R rest

end

/-- `str(v)` -/
def text (R : Reader) : Json → String
  | str s => s
  | v => v.repr R

/-- `int(v)` -/
def toInt (R : Reader) : Json → Except Raised Int
  | int i => .ok i
  | bool b => .ok (if b then 1 else 0)
  | float x => x.toInt
  | str s => R.intOfText s
  | v => .error (typeError ("int() argument must be a string, a bytes-like object or a real " ++
      "number, not '" ++ v.typeName ++ "'"))

mutual

/-- The value, as a state holds it. -/
def toValue : Json → Value
  | null => .none
  | bool b => .bool b
  | int i => .int i
  | float x => .obj "float" [("text", .str x.text)]
  | str s => .str s
  | list items => .list (toValues items)
  | dict members => .dict (toMembers members)

def toValues : List Json → List Value
  | [] => []
  | v :: rest => toValue v :: toValues rest

def toMembers : List (String × Json) → List (String × Value)
  | [] => []
  | (k, v) :: rest => (k, toValue v) :: toMembers rest

end

end Json

/-! ## Fences -/

def fence : List Char := ['`', '`', '`']

/-- `s.rstrip()` -/
def rstrip (s : List Char) : List Char := (s.reverse.dropWhile isSpace).reverse

/-- `strip_json_fences` -/
def stripJsonFences (R : Reader) (text : String) : String :=
  let stripped := (strip text).toList
  if fence.isPrefixOf stripped then
    match cutAt ['\n'] stripped with
    | none =>
      let inner := (stripped.drop 3).dropWhile R.isWord
      strip (String.ofList (inner.reverse.dropWhile (· = '`')).reverse)
    | some (_, rest) =>
      if fence.isSuffixOf (rstrip rest) then
        String.ofList (rstrip ((rstrip rest).take ((rstrip rest).length - 3)))
      else String.ofList rest
  else
    -- The second fence closes the first one: no letter between them is optional there.
    match cutAt fence stripped with
    | none => String.ofList stripped
    | some (_, rest) =>
      let rest := if "json".toList.isPrefixOf rest then rest.drop 4 else rest
      match cutAt fence (rest.dropWhile isSpace) with
      | none => String.ofList stripped
      | some (inner, _) => strip (String.ofList inner)

end orchestra.tprm.answers
