-- The server of the diligence runs (`orchestra_tprm/server/app.py`): the registry of runs and
-- its eviction, the task of a run that fills one queue, and the streams that empty it, in
-- any order of their steps.
import Orchestra.Lib.Dict
import Orchestra.Lib.Machine

open dicts machine

namespace orchestra.tprm.server

/-! ## The registry -/

def maxRuns : Nat := 500

def runTtlSec : Nat := 3600

def streamDeadlineSec : Nat := 900

inductive RunStatus
  | accepted
  | running
  | done
  | error
deriving DecidableEq, Repr

/-- An entry of `_runs`, as the eviction reads it. -/
structure RunMeta where
  status : RunStatus
  createdAt : Nat
deriving DecidableEq, Repr

def RunMeta.stale (now : Nat) (m : RunMeta) : Bool :=
  runTtlSec < now - m.createdAt || m.status = .done || m.status = .error

/-- `_evict_stale_runs`: the first stale entries, as many as the limit asks for. -/
def evictStaleRuns (now : Nat) (runs : Dict String RunMeta) : Dict String RunMeta :=
  let stale := (runs.entries.filter (fun e => e.2.stale now)).map (·.1)
  (stale.take (runs.size + stale.length - maxRuns)).foldl Dict.erase runs

/-! ## The events of a run -/

inductive Event
  | started
  | nodeDone (node : String)
  | verdict (report : String)
  | error (message : String)
  | done
deriving DecidableEq, Repr

/-- The verdict or the error, of which a run has one. -/
def Event.isOutcome : Event → Bool
  | .verdict _ | .error _ => true
  | _ => false

def Event.isEarly : Event → Bool
  | .started | .nodeDone _ => true
  | _ => false

/-- What the task puts last: the outcome, `done` and the sentinel. -/
def ending (outcome : Event) : List (Option Event) := [some outcome, some .done, none]

/-! ## Clients -/

/-- Where the generator of a stream is: at the top of its loop, at `queue.get()`, or past its
loop because of the sentinel, of the deadline or of its client. -/
inductive Phase
  | checking
  | waiting
  | closed
  | expired
  | cancelled
deriving DecidableEq, Repr

/-- A client of `/events/{run_id}` and its stream, without the heartbeats. -/
structure Client where
  received : List Event
  deadline : Nat
  listening : Bool
  phase : Phase
deriving DecidableEq, Repr

namespace Client

def new (now : Nat) : Client := ⟨[], now + streamDeadlineSec, true, .checking⟩

/-- The client listens, and its stream still reads the queue. -/
def Reads (c : Client) : Prop := c.listening = true ∧ (c.phase = .checking ∨ c.phase = .waiting)

/-- The top of the loop. Past its deadline a stream sends an error and `done` of its own. -/
def look (now : Nat) (c : Client) : Option Client :=
  if c.phase = .checking then
    some (if c.deadline < now then { c with phase := .expired } else { c with phase := .waiting })
  else none

/-- `msg = await queue.get()` -/
def get (m : Option Event) (c : Client) : Option Client :=
  if c.phase = .waiting then
    match m with
    | none => some { c with phase := .closed }
    | some e =>
      some { c with
        received := if c.listening then c.received ++ [e] else c.received
        phase := .checking }
  else none

/-- The timeout of the wait. -/
def heartbeat (c : Client) : Option Client :=
  if c.phase = .waiting then some { c with phase := .checking } else none

/-- The client goes away. Its stream goes on until it is cancelled. -/
def leave (c : Client) : Option Client := some { c with listening := false }

def cancel (c : Client) : Option Client :=
  if c.listening = false then some { c with phase := .cancelled } else none

end Client

/-! ## Runs -/

inductive TaskPhase
  | created
  | polling
  | ended
deriving DecidableEq, Repr

/-- A run, which its task and its streams hold also when the registry has dropped it. -/
structure Run where
  queue : List (Option Event)
  task : TaskPhase
  clients : List Client
deriving DecidableEq, Repr

namespace Run

def new : Run := ⟨[], .created, []⟩

/-- One of the clients takes a step. -/
def atClient (r : Run) (i : Nat) (f : Client → Option Client) : Option Run := do
  let c ← r.clients[i]?
  let c ← f c
  some { r with clients := r.clients.set i c }

/-- The stream of a client takes the head of the queue. -/
def take (r : Run) (i : Nat) : Option Run :=
  match r.queue with
  | [] => none
  | m :: rest => { r with queue := rest }.atClient i (Client.get m)

/-- The end of `_execute_graph_task`. An entry that is not there raises, and raises again in
the handler, so only the `finally` is left. -/
def finish (r : Run) (registered : Bool) (events : List Event) (outcome : Event) : Run :=
  { r with
    queue := r.queue ++ events.map some ++
      if registered then ending outcome else [some .done, none]
    task := .ended }

end Run

/-! ## The server -/

structure Server where
  now : Nat
  registry : Dict String RunMeta
  runs : Dict String Run

/-- A step of the server, of the task of a run, or of one of its clients, by its number. -/
inductive Action
  | tick
  | post (runId : String)
  | start (runId : String) (failure : Option String)
  | poll (runId : String) (nodes : List String)
  | finish (runId : String) (nodes : List String) (outcome : Except String String)
  | connect (runId : String)
  | look (runId : String) (i : Nat)
  | take (runId : String) (i : Nat)
  | heartbeat (runId : String) (i : Nat)
  | leave (runId : String) (i : Nat)
  | cancel (runId : String) (i : Nat)

namespace Server

def new : Server := ⟨0, .empty, .empty⟩

def atRun (s : Server) (runId : String) (f : Run → Option Run) : Option Server := do
  let r ← s.runs.get? runId
  let r ← f r
  some { s with runs := s.runs.set runId r }

def registered (s : Server) (runId : String) : Bool := runId ∈ s.registry.keys

/-- `_runs[run_id]["status"] = status`, where the entry is there. -/
def setStatus (s : Server) (runId : String) (status : RunStatus) : Server :=
  match s.registry.get? runId with
  | none => s
  | some m => { s with registry := s.registry.set runId { m with status } }

/-- `POST /run`, with an id that no run has. -/
def post (s : Server) (runId : String) : Option Server :=
  if runId ∈ s.runs.keys then none
  else some { s with
    registry := (evictStaleRuns s.now s.registry).set runId ⟨.accepted, s.now⟩
    runs := s.runs.set runId .new }

/-- The task up to the launch of the graph, which may fail. -/
def start (s : Server) (runId : String) (failure : Option String) : Option Server :=
  let registered := s.registered runId
  match registered, failure with
  | true, none =>
    (s.setStatus runId .running).atRun runId (fun r =>
      if r.task = .created then
        some { r with queue := r.queue ++ [some .started], task := .polling }
      else none)
  | _, _ =>
    (s.setStatus runId .error).atRun runId (fun r =>
      if r.task = .created then
        some (r.finish registered [.started] (.error (failure.getD "")))
      else none)

/-- A turn of the loop that waits for the graph: the nodes that it has not seen before. -/
def poll (s : Server) (runId : String) (nodes : List String) : Option Server :=
  s.atRun runId (fun r =>
    if r.task = .polling then
      some { r with queue := r.queue ++ (nodes.map Event.nodeDone).map some }
    else none)

def outcomeOf : Except String String → Event
  | .ok report => .verdict report
  | .error message => .error message

def statusOf : Except String String → RunStatus
  | .ok _ => .done
  | .error _ => .error

/-- The task from the end of the graph on, with the nodes of its last turn. -/
def finish (s : Server) (runId : String) (nodes : List String) (outcome : Except String String) :
    Option Server :=
  (s.setStatus runId (statusOf outcome)).atRun runId (fun r =>
    if r.task = .polling then
      some (r.finish (s.registered runId) (nodes.map Event.nodeDone) (outcomeOf outcome))
    else none)

/-- `GET /events/{run_id}`, for a run that is in the registry. -/
def connect (s : Server) (runId : String) : Option Server :=
  if s.registered runId then
    s.atRun runId (fun r => some { r with clients := r.clients ++ [.new s.now] })
  else none

def step (s : Server) : Action → Option Server
  | .tick => some { s with now := s.now + 1 }
  | .post runId => s.post runId
  | .start runId failure => s.start runId failure
  | .poll runId nodes => s.poll runId nodes
  | .finish runId nodes outcome => s.finish runId nodes outcome
  | .connect runId => s.connect runId
  | .look runId i => s.atRun runId (·.atClient i (Client.look s.now))
  | .take runId i => s.atRun runId (·.take i)
  | .heartbeat runId i => s.atRun runId (·.atClient i Client.heartbeat)
  | .leave runId i => s.atRun runId (·.atClient i Client.leave)
  | .cancel runId i => s.atRun runId (·.atClient i Client.cancel)

end Server

def serverMachine : Machine Server Action where
  init s := s = .new
  step s a t := s.step a = some t

end orchestra.tprm.server
