-- Where a run can go next, and every way in which the engine itself stops a
-- run: the class of each exception and its text, as `errors.py` and the
-- `raise` lines of the engine have them.
import Orchestra.Values

open dicts

namespace orchestra

/-- The next node of a run: the sentinel `END`, or a node id. -/
inductive Target
  | END
  | node (id : String)
deriving DecidableEq, Repr

/-- `str(target)`. The sentinel prints as `END`, like a node with that id. -/
def Target.text : Target → String
  | .END => "END"
  | .node id => id

/-- The exceptions of the engine. `raised` is an exception of outside code
that passes through unchanged. -/
inductive EngineError
  | nodeNotFound (id : String) (available : List String)
  | notInPathMap (result key : String) (available : List String)
  | keyError (target : Target)
  | unknownField (field cls : String) (available : List String)
  | reducerFailed (reducer field : String) (existing new : Value) (error : String)
  | validationFailed (cls error : String)
  | maxIterations (maxTurns : Nat) (last : Target)
  | guardrailRejected (what : String)
  | nodeFailed (id nodeType : String) (error : Raised)
  | parallelFailed (errors : List String)
  | sendFailed (error : String)
  | noEventBus
  | noCheckpoint (runId : String)
  | noEvents (runId : String) (sequence : Int)
  | raised (error : Raised)
deriving DecidableEq, Repr

namespace EngineError

/-- `type(exc).__name__` -/
def type : EngineError → String
  | nodeNotFound .. | notInPathMap .. => "GraphCompileError"
  | keyError _ => "KeyError"
  | unknownField .. | validationFailed .. => "StateValidationError"
  | reducerFailed .. => "ReducerError"
  | maxIterations .. => "MaxIterationsError"
  | guardrailRejected _ | nodeFailed .. | parallelFailed _ | sendFailed _ | noCheckpoint _ =>
    "AgentError"
  | noEventBus => "AttributeError"
  | noEvents .. => "ValueError"
  | raised e => e.type

/-- `str(exc)`. The two values in the text of a `ReducerError` are left out. -/
def message : EngineError → String
  | nodeNotFound id available =>
    "Node '" ++ id ++ "' not found during execution.\n  Available nodes: " ++ listText available
  | notInPathMap result key available =>
    "Conditional edge returned " ++ result ++ " which is not in path_map.\n  Available keys: " ++
      listText available ++ "\n  Fix: Return one of the available keys from your condition " ++
      "function, or add '" ++ key ++ "' to the path_map."
  | keyError .END => "END"
  | keyError (.node id) => "'" ++ id ++ "'"
  | unknownField field cls available =>
    "Unknown state field: '" ++ field ++ "'.\n  State class: " ++ cls ++
      "\n  Available fields: " ++ listText available ++ "\n  Fix: Add '" ++ field ++
      "' to your state class or remove it from the update."
  | reducerFailed reducer field _ _ error =>
    "Reducer '" ++ reducer ++ "' failed on field '" ++ field ++ "'.\n  Error: " ++ error
  | validationFailed cls error =>
    "State validation failed after update.\n  State class: " ++ cls ++ "\n  Error: " ++ error
  | maxIterations maxTurns last =>
    "Workflow exceeded max_turns (" ++ toString maxTurns ++ ").\n  Last node: " ++ last.text ++
      "\n  Fix: Increase max_turns or add an exit condition to your loop."
  | guardrailRejected what => "Guardrail rejected " ++ what
  | nodeFailed id nodeType error =>
    "Node '" ++ id ++ "' failed: " ++ error.message ++ "\n  Node type: " ++ nodeType
  | parallelFailed errors => "Parallel execution failed.\n  Failed nodes: " ++ listText errors
  | sendFailed error => "Send execution failed: " ++ error
  | noEventBus => "'NoneType' object has no attribute 'emit'"
  | noCheckpoint runId => "No checkpoint found for run_id '" ++ runId ++ "'. Cannot resume."
  | noEvents runId sequence =>
    "No events found for run_id '" ++ runId ++ "' up to sequence " ++ toString sequence
  | raised e => e.message

/-- The two errors about a node id that is not in the graph. -/
def offGraph : EngineError → Bool
  | nodeNotFound .. | keyError _ => true
  | _ => false

end EngineError

end orchestra
