-- The diligence graph (`orchestra_tprm/graph.py`): what a run of it is given from outside, the
-- shims around its agents, and `build_graph`.
import Orchestra.Lib.Fallible
import Orchestra.Tprm.Reports
import Orchestra.Tprm.Routing
import Orchestra.Tprm.Specialists
import Orchestra.Tprm.Stages
import Orchestra.Tprm.Verdicts

open dicts texts fallible orchestra.state orchestra.edges orchestra.nodes orchestra.compiled orchestra.graph
open orchestra.fluent orchestra.tprm.schemas orchestra.tprm.state orchestra.tprm.answers
open orchestra.tprm.routing orchestra.tprm.verdicts orchestra.tprm.specialists
open orchestra.tprm.reports orchestra.tprm.stages

namespace orchestra.tprm.graph

/-! ## What a run is given -/

/-- A mode: a model for each specialist, how the verdict is written, and the policy pack. -/
structure ModeConfig where
  specialists : Specialist → Option String
  outputKind : OutputKind
  pack : PolicyPack

/-- The contents of the answers of a run, in the order of the calls. -/
structure Replies where
  router : Option String
  riskScore : Option String
  remediation : Option String
  coordinator : Option String
  planner : Option String

/-- What a run meets outside of the graph. There are replies when there is a provider. `ran` is
what `run` of a specialist comes to, and `freshId` gives the ids of findings that nodes make. -/
structure World where
  reader : Reader
  packet : Packet
  replies : Option Replies
  ran : Specialist → Except Failure (List Finding)
  freshId : String → String
  githubUrl : String
  sheetId : String
  docId : String
  newDoc : Option (String → String)
  csvPath : String → String

namespace ModeConfig

/-- `_build_specialists`: those that have a model. -/
def active (cfg : ModeConfig) : List Specialist :=
  Specialist.all.filter (fun s => decide ((cfg.specialists s).getD "" ≠ ""))

/-- `active_specialist_names` -/
def activeNames (cfg : ModeConfig) : List String := cfg.active.map Specialist.name

end ModeConfig

namespace World

variable (W : World)

/-- What a specialist returns, wrapped in `safe_specialist`. -/
def returned (s : Specialist) : List Finding :=
  match W.ran s with
  | .ok findings => findings
  | .error f =>
    (safeSpecialist s.name (.error f)).map (fun finding => { finding with id := W.freshId s.name })

/-- What the coordinator is set up with. -/
def desk (cfg : ModeConfig) : Coordinator.Config where
  outputKind := cfg.outputKind
  sheetId := W.sheetId
  docId := W.docId
  newDoc := W.newDoc
  csvPath := W.csvPath

end World

/-! ## The completeness gate -/

/-- `_DRL_CATEGORIES`, each with its `_DRL_KEYWORDS`. -/
def drlKeywords : List (String × List String) := [
  ("financial_statements",
    ["financial", "10-k", "10k", "income", "balance-sheet", "p&l", "annual"]),
  ("legal_corporate",
    ["articles", "bylaws", "incorporation", "corporate", "minutes", "consent"]),
  ("ip_assignments",
    ["ip-assignment", "ip_assignment", "patent", "trademark", "copyright", "invention"]),
  ("security_pentest",
    ["pentest", "pen-test", "penetration", "soc2", "soc-2", "iso27001", "iso-27001"]),
  ("cap_table",
    ["cap-table", "captable", "cap_table", "shareholder", "equity-grant", "option-grant"]),
  ("tax_returns", ["tax-return", "tax_return", "1120", "k-1", "form-1120", "irs"])]

/-- The categories that no document of the manifest belongs to. -/
def missingCategories (manifest : List ManifestEntry) : List String :=
  let present := fun keywords : List String => manifest.any (fun e =>
    keywords.any (fun kw => contains (lower e.path ++ "|" ++ lower e.kind) kw))
  (drlKeywords.filter (fun category => !present category.2)).map Prod.fst

def missingFinding (freshId : String → String) (category : String) : Finding :=
  let slug := String.ofList (category.toList.map (fun c => if c = '_' then '-' else c))
  { newFinding "VDRGate" ("vdr-missing-" ++ slug) .low
      ("VDR completeness gate: missing document category '" ++ category ++
        "' -- monitor post-close for follow-up requests.") with
    id := freshId category
    workstream := some .legal
    icDecision := some .postCloseMonitoring }

/-- `_vdr_completeness_check` -/
def vdrCompletenessCheck (freshId : String → String) (manifest : List ManifestEntry) :
    List Finding :=
  (missingCategories manifest).map (missingFinding freshId)

def runGate (freshId : String → String) (state : PyDict) : Except Raised (List Write) := do
  let manifest ← readField (listOf ManifestEntry.model) state "packet_manifest" []
  .ok [.findings (vdrCompletenessCheck freshId manifest)]

/-! ## The shims -/

/-- No field is written twice. -/
abbrev Once (writes : List Write) : Prop := (writes.map Write.key).Nodup

theorem once_runIntake (packet : Packet) (state : PyDict) :
    Yields Once (runIntake packet state) := by
  unfold runIntake
  apply yields_bind
  intro subject
  cases packet <;> exact yields_ok (by simp [Once, Write.key, Write.entry])

theorem once_runGate (freshId : String → String) (state : PyDict) :
    Yields Once (runGate freshId state) :=
  yields_bind fun _ => yields_ok (by simp [Once])

theorem once_runRouter (R : Reader) (active : List String) (answer : Option (Option String))
    (state : PyDict) : Yields Once (runRouter R active answer state) :=
  yields_bind fun _ => yields_bind fun _ => yields_ok (by simp [Once])

theorem once_riskScore (R : Reader) (pack : PolicyPack) (answer : Option (Option String))
    (state : PyDict) : Yields Once (RiskScoreAgent.call R pack answer state) :=
  yields_bind fun _ => yields_bind fun _ => yields_ok (by simp [Once])

theorem once_policy (pack : PolicyPack) (runId : String) (state : PyDict) :
    Yields (fun done => Once done.2) (PolicyAgent.call pack runId state) := by
  unfold PolicyAgent.call
  apply yields_bind; intro findings
  apply yields_bind; intro scope
  apply yields_bind; intro mode
  apply yields_bind; intro subject
  exact yields_ok (by simp [Once, Write.key, Write.entry])

theorem once_remediation (R : Reader) (answer : Option (Option String)) (state : PyDict) :
    Yields Once (RemediationAgent.call R answer state) :=
  yields_bind fun _ => yields_bind fun _ => yields_bind fun _ => yields_ok (by simp [Once])

theorem once_coordinator (R : Reader) (cfg : Coordinator.Config)
    (answer : Option (Option String)) (state : PyDict) :
    Yields (fun done => Once done.2) (Coordinator.call R cfg answer state) := by
  unfold Coordinator.call
  apply yields_bind; intro findings
  apply yields_bind; intro json
  cases cfg.outputKind with
  | sheet =>
    apply yields_bind; intro row
    exact yields_ok (by simp [Once, Write.key, Write.entry])
  | doc =>
    apply yields_bind; intro summary
    apply yields_bind; intro json
    rcases cfg.newDoc with _ | newDoc
    · exact yields_ok (by simp [Once, Write.key, Write.entry])
    · apply yields_bind; intro subject
      exact yields_ok (by simp [Once, Write.key, Write.entry])

theorem once_planner (R : Reader) (answer : Option (Option String)) (state : PyDict) :
    Yields Once (PMIPlannerAgent.call R answer state) :=
  yields_bind fun _ => yields_bind fun _ => yields_bind fun _ => yields_ok (by simp [Once])

section

variable (cfg : ModeConfig) (W : World)

def bootstrap : Shim where
  id := "bootstrap"
  agentName := "BootstrapAgent"
  outputKey := "github_url"
  call _ _ := .ok [.githubUrl W.githubUrl]
  once _ _ := yields_ok (by simp)

def intake : Shim where
  id := "intake"
  agentName := "IntakeAgent"
  outputKey := "packet_manifest"
  call _ := runIntake W.packet
  once _ := once_runIntake W.packet

def vdrGate : Shim where
  id := "vdr_gate"
  agentName := "VDRGate"
  outputKey := "findings"
  call _ := runGate W.freshId
  once _ := once_runGate W.freshId

def router : Shim where
  id := "router"
  agentName := "DocRouterAgent"
  outputKey := "routing"
  call _ := runRouter W.reader cfg.activeNames (W.replies.map Replies.router)
  once _ := once_runRouter W.reader cfg.activeNames (W.replies.map Replies.router)

def specialist (s : Specialist) : Shim where
  id := s.key
  agentName := s.name
  outputKey := "findings"
  call _ _ := .ok [.findings (W.returned s)]
  once _ _ := yields_ok (by simp)

def riskScore : Shim where
  id := "risk_score"
  agentName := "RiskScoreAgent"
  outputKey := "risk_assessment"
  call _ := RiskScoreAgent.call W.reader cfg.pack (W.replies.map Replies.riskScore)
  once _ := once_riskScore W.reader cfg.pack (W.replies.map Replies.riskScore)

def policy : Shim where
  id := "policy"
  agentName := "PolicyAgent"
  outputKey := "policy_verdict"
  call runId state := (PolicyAgent.call cfg.pack runId state).map Prod.snd
  once runId state := yields_map (once_policy cfg.pack runId state)

def remediation : Shim where
  id := "remediation"
  agentName := "RemediationAgent"
  outputKey := "remediation_plan"
  call _ := RemediationAgent.call W.reader (W.replies.map Replies.remediation)
  once _ := once_remediation W.reader (W.replies.map Replies.remediation)

def coordinator : Shim where
  id := "coordinator"
  agentName := "Coordinator"
  outputKey := "verdict_local_path"
  call _ state := (Coordinator.call W.reader (W.desk cfg)
    (W.replies.map Replies.coordinator) state).map Prod.snd
  once _ state := yields_map (once_coordinator W.reader (W.desk cfg)
    (W.replies.map Replies.coordinator) state)

def pmiPlanner : Shim where
  id := "pmi_planner"
  agentName := "PMIPlannerAgent"
  outputKey := "pmi_plan"
  call _ := PMIPlannerAgent.call W.reader (W.replies.map Replies.planner)
  once _ := once_planner W.reader (W.replies.map Replies.planner)

/-! ## `build_graph` -/

/-- `add_node` for each of the shims. -/
def addAll (g : WorkflowGraph) (shims : List Shim) : Except BuildError WorkflowGraph :=
  shims.foldlM (fun g p => g.addNode p.id (.agent p.agentNode) (some p.outputKey) false false) g

/-- The shims that every mode has, in the order of their calls of `add_node`. -/
def shims : List Shim :=
  [bootstrap W, intake W, router cfg W] ++ cfg.active.map (specialist W) ++
    [riskScore cfg W, policy cfg, remediation W, coordinator cfg W]

/-- The nodes and the edges of `build_graph`. -/
def wired : Except BuildError WorkflowGraph := do
  let g ← addAll (WorkflowGraph.new (some TPRMState.schema) "") (shims cfg W)
  let g := (g.setEntryPoint "bootstrap").addEdge "bootstrap" (.node "intake")
  let g ← match cfg.outputKind with
    | .doc => do
      let g ← addAll g [vdrGate W]
      .ok ((g.addEdge "intake" (.node "vdr_gate")).addEdge "vdr_gate" (.node "router"))
    | .sheet => .ok (g.addEdge "intake" (.node "router"))
  let g := g.addParallel "router" (cfg.active.map Specialist.key) (some (.node "risk_score"))
  let g := ((g.addEdge "risk_score" (.node "policy")).addEdge "policy"
    (.node "remediation")).addEdge "remediation" (.node "coordinator")
  match cfg.outputKind with
  | .doc => do
    let g ← addAll g [pmiPlanner W]
    .ok ((g.addEdge "coordinator" (.node "pmi_planner")).addEdge "pmi_planner" .END)
  | .sheet => .ok (g.addEdge "coordinator" .END)

/-- `build_graph`. Its errors are those of a `GraphCompileError`. -/
def buildGraph : Except String CompiledGraph := do
  let g ← (wired cfg W).mapError BuildError.message
  (g.compile 50).mapError CompileError.message

end

end orchestra.tprm.graph
