-- The page of a run (`RunDetailPage.tsx`): it loads the history of the run and
-- follows its stream, and both go into the same store. The history replaces
-- what the stream brought, and the stream brings what the history has, so the
-- page counts each event once only when the two just meet.
import Orchestra.Delivery
import Orchestra.RunStore
import Orchestra.Sequences

open dicts machine orchestra.state orchestra.events orchestra.compiled orchestra.runs
open orchestra.nodes orchestra.server orchestra.streams orchestra.delivery orchestra.run_store
open orchestra.sequences

namespace orchestra.run_page

/-! ## The page -/

/-- What the page has got: the answers to its requests for the run, the history
and the state, and its store. -/
structure Page where
  runInfo : Option RunStatus
  history : Option (List WorkflowEvent)
  state : Option PyDict
  loaded : Bool
  store : RunSlice

/-- A run with its streams, and the page. -/
structure PageState where
  stream : Streaming
  page : Page

def PageState.opened (G : CompiledGraph) : PageState :=
  ⟨.started G, ⟨none, none, none, false, .new⟩⟩

/-- A step of the run and its stream, an answer to the page, the start of its
stream, the load of the history, or the arrival of a record. -/
inductive PageAction
  | stream (action : StreamAction)
  | answersRun
  | answersEvents
  | answersState
  | opens
  | loads
  | receives

/-- Once the history is loaded, the stream has ended and the run is over, the
store holds the events of the run, each once and in order, and its nodes show
one fold over them. -/
def CountsOnce (s : PageState) : Prop :=
  s.page.loaded = true → (∃ c ∈ s.stream.clients, c.done = true) →
    (∀ u ∈ s.stream.run.tasks, u.ended ≠ none) →
    s.page.store.events = s.stream.stored ∧
    s.page.store.shown.nodeData = (reduceAll initialReducerState s.stream.stored).nodeData

/-! ## The condition -/

/-- The events that the stream still brings to the page, opened or not. -/
def brings (s : Streaming) : List WorkflowEvent :=
  (s.connections[0]?).elim (ahead s) (fun a => coming a (ahead s))

/-- The stream of the page has not sent its end marker. -/
def Pending (s : Streaming) : Prop := ∀ a ∈ s.connections, a.phase ≠ .finished

/-- The history is loaded when it and what the stream still brings are the
events of the run. After that, each event goes through the queue, and the end
marker is last. -/
def Meets (s : PageState) : PageAction → Prop
  | .loads => ∀ history, s.page.history = some history →
    history ++ brings s.stream = s.stream.stored
  | .stream (.emits i _) => s.page.loaded = true → i = 0 ∧ Pending s.stream
  | .stream (.forks ..) => s.page.loaded = false
  | .stream (.server (.ends i _)) => s.page.loaded = true → i = 0 → Pending s.stream →
    s.stream.unput = []
  | .stream (.serves _) => s.page.loaded = true → ∀ a ∈ s.stream.connections,
    a.phase = .reading [] → s.stream.queue.head? = some none → ahead s.stream = []
  | _ => True

/-! ## The invariant -/

section streams

variable {s t : Streaming} {a b : Connection}

end streams

/-! ## Every step -/

section steps

variable {s t : PageState}

end steps

/-! ## The law -/

section trace

variable {G : CompiledGraph} {runId : String} {s t : PageState} {stream : Streaming}
  {P : PageState → PageAction → Prop}

end trace

end orchestra.run_page
