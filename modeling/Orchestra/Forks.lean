-- The law of a fork: a child that starts between two turns of its parent ends
-- where the parent ended. The fork guesses where the parent was from its last
-- `NodeStarted`, so inside of a turn it skips the node, and what the way out of
-- the node needs of the context is gone.
import Orchestra.Sessions
import Orchestra.Twins

open dicts logged machine orchestra.state orchestra.edges orchestra.events orchestra.nodes
open orchestra.compiled orchestra.turns orchestra.runs orchestra.sessions orchestra.twins

namespace orchestra.forks

variable {G : CompiledGraph} {env env' : Env}

/-! ## What a fork promises -/

/-- The way out of the node, without loop counters and without a bus, leads to
`next` and does nothing on its way. -/
def LeadsTo (G : CompiledGraph) (nodeId : String) (stateDict : PyDict) (next : Target) : Prop :=
  match G.edgesFrom nodeId with
  | .plain _ target :: _ => target = next
  | .conditional e :: _ => G.schema ≠ none ∧ ∃ counters,
    e.resolve (stateDict.set loopCountersKey (Counters.value .empty)) .empty =
      .ok (.next next, counters)
  | .parallel _ :: _ => False
  | [] => pickHandoff nodeId stateDict G.handoffEdges = .ok none ∧ next = .END

/-- The child is in step with the parent. It has taken fewer turns, and neither
of them comes from a pause. -/
structure Beside (L M : Loop G.schema) : Prop where
  inStep : InStep L M
  turns : M.ctx.turnNumber ≤ L.ctx.turnNumber
  parent : L.bypass = false
  child : M.bypass = false

section

variable (hG : Deterministic G) (henv : Env.StartsInOrder env) (henv' : Env.StartsInOrder env')

include hG henv henv'

end

/-! ## The law -/

/-- Two steps without a state class. -/
def twoSteps : CompiledGraph where
  nodes := Dict.ofList [
    ("draft", .function (pureNode "draft" fun _ => Dict.ofList [("text", .str "a poem")])),
    ("review", .function (pureNode "review" fun _ => Dict.ofList [("approved", .bool true)]))]
  edges := [.plain "draft" (.node "review"), .plain "review" .END]
  entryPoint := "draft"
  schema := none
  maxTurns := 50
  name := ""
  handoffEdges := []

end orchestra.forks
