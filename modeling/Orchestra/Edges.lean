-- The edges of `edges.py` and `handoff.py`: where a run may go when a node is
-- done, and what a routing function may answer.
import Orchestra.State

open dicts

namespace orchestra.edges

/-- The loop counters of a run, by loop id. -/
abbrev Counters := Dict String Int

/-- `dict(counters)` as the condition sees it in the state. -/
def Counters.value (c : Counters) : Value := .dict (c.entries.map (fun e => (e.1, .int e.2)))

/-! ## The answer of a routing function -/

/-- A dynamic branch, with its own slice of the state. -/
structure Send where
  node : String
  state : PyDict
deriving DecidableEq

/-- What a routing function returns. `other` is any object that is neither a
JSON scalar nor a list of sends, with its text. -/
inductive Routed
  | END
  | none
  | bool (b : Bool)
  | int (i : Int)
  | str (s : String)
  | sends (first : Send) (rest : List Send)
  | other (text : String)

/-- What an edge resolves to: a next node, or a fan-out over sends. -/
inductive Resolved
  | next (target : Target)
  | sends (sends : List Send)

/-- The answer as it is, when no path map translates it. The loop looks a node
up under `str(result)`. -/
def Routed.resolved : Routed → Resolved
  | .END => .next .END
  | .none => .next (.node "None")
  | .bool b => .next (.node (if b then "True" else "False"))
  | .int i => .next (.node (toString i))
  | .str s => .next (.node s)
  | .sends first rest => .sends (first :: rest)
  | .other text => .next (.node text)

/-- `repr(result)` in the text of an error. -/
def Routed.repr : Routed → String
  | .END => "END"
  | .none => "None"
  | .bool b => if b then "True" else "False"
  | .int i => toString i
  | .str s => "'" ++ s ++ "'"
  | .sends .. => "[Send]"
  | .other text => text

/-- The key under which a path map holds an answer: a JSON scalar as JSON
writes it, and no key for anything else. -/
def coercePathKey : Routed → Option String
  | .str s => some s
  | .bool b => some (if b then "true" else "false")
  | .none => some "null"
  | .int i => some (toString i)
  | .END | .sends .. | .other _ => Option.none

/-! ## The edges -/

/-- The condition gets the state, which also shows the loop counters, and may
write to the counters. -/
structure ConditionalEdge where
  source : String
  condition : PyDict → Counters → Except Raised (Routed × Counters)
  pathMap : Option (Dict String Target)

structure ParallelEdge where
  source : String
  targets : List Target
  joinNode : Option Target

/-- An edge of the graph, in the order of `add_edge` and its like. -/
inductive GraphEdge
  | plain (source : String) (target : Target)
  | conditional (e : ConditionalEdge)
  | parallel (e : ParallelEdge)

def GraphEdge.source : GraphEdge → String
  | .plain source _ => source
  | .conditional e => e.source
  | .parallel e => e.source

structure HandoffEdge where
  source : String
  target : String
  condition : Option (PyDict → Except Raised Bool)
  distill : Bool

/-- Ask the condition, and look its answer up in the path map. -/
def ConditionalEdge.resolve (e : ConditionalEdge) (state : PyDict) (counters : Counters) :
    Except EngineError (Resolved × Counters) :=
  match e.condition state counters with
  | .error error => .error (.raised error)
  | .ok (result, counters) =>
    match e.pathMap with
    | none => .ok (result.resolved, counters)
    | some paths =>
      match coercePathKey result with
      | none => .ok (result.resolved, counters)
      | some key =>
        match paths.get? key with
        | none => .error (.notInPathMap result.repr key paths.keys)
        | some target => .ok (.next target, counters)

end orchestra.edges
