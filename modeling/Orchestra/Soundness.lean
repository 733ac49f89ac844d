-- The law of `compile()`: which ids a run of a compiled graph can reach. The
-- check of the builder leaves out the join node of a parallel edge and the
-- target of a handoff, and it takes END for a parallel branch.
import Orchestra.Graph
import Orchestra.Runs
import Orchestra.Turns

open dicts logged machine orchestra.state orchestra.edges orchestra.events orchestra.nodes
open orchestra.compiled orchestra.graph orchestra.turns orchestra.runs

namespace orchestra.soundness

variable {G : CompiledGraph} {env : Env}

/-! ## The way out of a node -/

/-- The call ended with an error about a node that is not in the graph. -/
def offGraph : CallResult → Bool
  | .ended (.raised e) => e.offGraph
  | _ => false

/-- Two branches of work and a join that is a node. -/
def joined : WorkflowGraph where
  schema := none
  name := ""
  nodes := Dict.ofList [("plan", .function (pureNode "plan" fun _ => .empty)),
    ("draft", .function (pureNode "draft" fun _ => .empty)),
    ("review", .function (pureNode "review" fun _ => .empty))]
  edges := [.parallel ⟨"plan", [.node "draft", .node "draft"], some (.node "review")⟩]
  handoffEdges := []
  entryPoint := some "plan"
  lastNode := some "review"
  parallelNodes := none

end orchestra.soundness
