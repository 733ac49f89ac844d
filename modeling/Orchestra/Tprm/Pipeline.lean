-- A run of the diligence graph from its request on: the states that its agents are given, what
-- it takes to reach the end, and the state in the end.
import Orchestra.Tprm.Wiring

open dicts records fallible orchestra.state orchestra.nodes orchestra.compiled orchestra.runs
open orchestra.fluent orchestra.chains orchestra.visits
open orchestra.tprm.schemas orchestra.tprm.state orchestra.tprm.answers orchestra.tprm.routing
open orchestra.tprm.verdicts orchestra.tprm.reports orchestra.tprm.stages orchestra.tprm.graph
open orchestra.tprm.wiring

namespace orchestra.tprm.pipeline

/-! ## Requests -/

/-- What a caller asks for. Only a request over HTTP says something about the scope. -/
structure RunRequest where
  mode : Mode
  subjectName : String
  packetPath : String
  maScope : Option (Option MAScope)
  runId : String

namespace RunRequest

/-- `initial`. A scope is given as its dump. -/
def initial (r : RunRequest) : PyDict :=
  Dict.ofList ([("mode", Mode.model.dump r.mode), ("subject_name", str.dump r.subjectName),
    ("packet_path", str.dump r.packetPath)] ++
      (r.maScope.map (fun scope => ("ma_scope", (recordOrNone MAScope.fields).dump scope))).toList)

def input (r : RunRequest) : RunInput := ⟨r.initial, none, freshCtx r.runId⟩

/-- The state that the run starts with. -/
def start (r : RunRequest) : TPRMState :=
  .start r.mode r.subjectName r.packetPath (r.maScope.getD none)

theorem plain_input (r : RunRequest) : Plain r.input := ⟨rfl, rfl, rfl⟩

theorem parse_initial (r : RunRequest) :
    TPRMState.fields.parse r.initial.entries = .ok r.start := by
  obtain ⟨mode, subject, path, scope, runId⟩ := r
  refine Eq.trans (Fields.parse_iso (a := (mode, subject, path, "", .empty, [], .empty, [], 0, "",
    "", "", scope.getD none, none, none, none, none, ())) ?_) rfl
  cases scope with
  | none =>
    refine Fields.parse_cons ?_ rfl
    exact Mode.model.parse_dump mode
  | some scope =>
    refine Fields.parse_cons ?_ ?_
    · exact Mode.model.parse_dump mode
    -- The scope is the thirteenth field. The fields between are plain.
    iterate 11 refine Fields.parse_cons rfl ?_
    refine Fields.parse_cons ?_ rfl
    exact (recordOrNone MAScope.fields).parse_dump scope

theorem validate_initial (r : RunRequest) :
    TPRMState.schema.validate r.initial = .ok r.start.dump := by
  show (TPRMState.fields.parse r.initial.entries).map TPRMState.fields.dict = _
  rw [parse_initial]
  rfl

theorem ofDict_initial (r : RunRequest) :
    WorkflowState.ofDict tprmClass r.input.initialState = .ok r.start.held := by
  have hvalid := r.validate_initial
  unfold WorkflowState.ofDict
  simp only
  split
  · rename_i d hd
    rw [show r.input.initialState = r.initial from rfl, hvalid] at hd
    exact congrArg Except.ok (WorkflowState.ext_data (Except.ok.inj hd).symm)
  · rename_i e he
    rw [show r.input.initialState = r.initial from rfl, hvalid] at he
    cases he

end RunRequest

/-! ## The engine -/

theorem isLoop_step (stage : Stage) : stage.step.isLoop = false := by cases stage <;> rfl

theorem reached_steps (stages : List Stage) :
    reached (stages.map Stage.step) = stages.map Stage.step := by
  induction stages with
  | nil => rfl
  | cons stage rest ih => simp [reached, isLoop_step, ih]

theorem turnsOf_steps (stages : List Stage) : turnsOf (stages.map Stage.step) = stages.length := by
  induction stages with
  | nil => rfl
  | cons stage rest ih =>
    have hone := turns_of_single (isLoop_step stage)
    unfold turnsOf at ih ⊢
    rw [List.map_cons, List.map_cons, List.sum_cons, hone, ih, List.length_cons, Nat.add_comm]

theorem length_stages (cfg : ModeConfig) (W : World) : (stages cfg W).length ≤ 9 := by
  unfold stages wiring.early middle late
  cases cfg.outputKind <;> simp

/-- A run begins with `bootstrap`. -/
theorem exists_stages (cfg : ModeConfig) (W : World) :
    ∃ rest, stages cfg W = .one (bootstrap W) :: rest := by
  unfold stages wiring.early
  cases cfg.outputKind <;> exact ⟨_, rfl⟩

/-- What the caller of a run gets. -/
def ended : Except EngineError TPRMState → Outcome
  | .ok s => .completed s.dump
  | .error e => .raised e

theorem outcomeOf_held {x : Except EngineError (WorkflowState tprmClass × Ctx)}
    {y : Except EngineError TPRMState} (h : x.map Prod.fst = y.map TPRMState.held) :
    outcomeOf x = ended y := by
  rcases x with e | ⟨state, ctx⟩ <;> rcases y with e' | s <;> cases h <;> rfl

variable (cfg : ModeConfig) (W : World) (env : Env) (r : RunRequest)

/-- A run of the graph ends as its stages end. -/
theorem outcome_run : (runs.run (compiled cfg W) env r.input).outcome =
    ended (exec r.runId (stages cfg W) r.start) := by
  obtain ⟨rest, hstages⟩ := exists_stages cfg W
  have hlayout := layout cfg W
  have hturns : turnsOf (reached ((stages cfg W).map Stage.step)) ≤ (compiled cfg W).maxTurns := by
    rw [reached_steps, turnsOf_steps]
    exact (length_stages cfg W).trans (by simp [compiled])
  have hchain := execChain_stages env (stages cfg W) r.start
    (runStart (compiled cfg W) r.input r.start.held).ctx
  have htells : Tells (runLoop (compiled cfg W) env
      (runStart (compiled cfg W) r.input r.start.held))
      (execChain env (reached ((stages cfg W).map Stage.step)) r.start.held
        (runStart (compiled cfg W) r.input r.start.held).ctx) := by
    rw [hstages, List.map_cons] at hlayout hturns ⊢
    exact tells_start env hlayout rfl r.plain_input hturns r.start.held
  rw [reached_steps] at htells
  rw [(run_of_tells r.ofDict_initial htells).1]
  exact outcomeOf_held hchain

/-- The shims of a run are given these states. -/
theorem visits_run : visitsOfRun (compiled cfg W) env r.input =
    (given r.runId (stages cfg W) r.start).map (fun v => (v.1, v.2.dump)) := by
  obtain ⟨rest, hstages⟩ := exists_stages cfg W
  have hlayout := layout cfg W
  have hturns : ((stages cfg W).map Stage.step).length ≤ (compiled cfg W).maxTurns := by
    rw [List.length_map]
    exact (length_stages cfg W).trans (by simp [compiled])
  have hloops : ∀ t ∈ (stages cfg W).map Stage.step, t.isLoop = false := by
    intro t ht
    obtain ⟨stage, -, rfl⟩ := List.mem_map.mp ht
    exact isLoop_step stage
  have hvisits := visitsOf_stages env (stages cfg W) r.start
    (runStart (compiled cfg W) r.input r.start.held).ctx
  rw [hstages, List.map_cons] at hlayout hturns hloops hvisits
  rw [visits_chain env hlayout hloops rfl r.plain_input hturns r.ofDict_initial, hstages]
  exact hvisits

/-! ## The agents on a state -/

section

variable (R : Reader) (s : TPRMState)

theorem recordIn_dump {α : Type} {F : ModelFields α} {key : String} {record : Option α}
    (h : s.dump.get? key = some ((recordOrNone F).dump record)) :
    recordIn F s.dump key = record := by
  unfold recordIn
  rw [readField_of_some h]

theorem runRouter_dump (active : List String) (answer : Option (Option String)) :
    runRouter R active answer s.dump =
      (docRouter R active answer s.packetManifest).map (fun docs => [.routing docs]) := by
  unfold runRouter
  rw [s.read_manifest]
  simp only [bind, Except.bind, Except.map]

theorem riskScore_dump (pack : PolicyPack) (answer : Option (Option String)) :
    RiskScoreAgent.call R pack answer s.dump =
      (RiskScoreAgent.assess R pack answer s.findings).map
        (fun score => [.riskAssessment score]) := by
  unfold RiskScoreAgent.call
  rw [s.coerceFindings_dump]
  simp only [bind, Except.bind, Except.map]

/-- The policy judges every state. -/
theorem policy_dump (pack : PolicyPack) (runId : String) :
    PolicyAgent.call pack runId s.dump =
      .ok (⟨runId, s.findings, s.mode.text, s.subjectName⟩,
        [.riskScore (PolicyAgent.score pack s.findings),
          .policyVerdict (PolicyAgent.judge pack s.maScope s.findings).1,
          .icMemo (PolicyAgent.judge pack s.maScope s.findings).2]) := by
  unfold PolicyAgent.call
  rw [s.coerceFindings_dump, s.read_scope, s.read_mode, s.read_subject]
  rfl

theorem remediation_dump (answer : Option (Option String)) :
    RemediationAgent.call R answer s.dump =
      (RemediationAgent.plan R answer s.policyVerdict s.icMemo s.findings).map
        (fun plan => [.remediationPlan plan]) := by
  have hmemo : recordIn ICMemo.fields s.dump "ic_memo" = s.icMemo := recordIn_dump s rfl
  unfold RemediationAgent.call
  rw [s.coerceFindings_dump, s.read_verdict]
  simp only [bind, Except.bind, Except.map, hmemo]

theorem planner_dump (answer : Option (Option String)) :
    PMIPlannerAgent.call R answer s.dump =
      (PMIPlannerAgent.plan R answer s.subjectName s.findings).map
        (fun plan => [.pmiPlan plan]) := by
  unfold PMIPlannerAgent.call
  rw [s.coerceFindings_dump, s.read_subject]
  simp only [bind, Except.bind, Except.map]

/-- Intake takes over the packet. -/
theorem intake_dump (packet : Packet) : ∃ writes subject, runIntake packet s.dump = .ok writes ∧
    s.writeAll writes =
      { s with
        packetManifest := s.packetManifest ++ packet.manifest
        fileUris := s.fileUris.update packet.fileUris
        subjectName := subject } := by
  unfold runIntake
  rw [s.read_subject]
  cases packet with
  | folder docs subjectName => exact ⟨_, _, rfl, rfl⟩
  | drive files localUri => exact ⟨_, _, rfl, rfl⟩
  | absent => exact ⟨_, s.subjectName, rfl, rfl⟩

theorem gate_dump (freshId : String → String) : runGate freshId s.dump =
    .ok [.findings (vdrCompletenessCheck freshId s.packetManifest)] := by
  unfold runGate
  rw [s.read_manifest]
  rfl

/-- The coordinator writes where its record is, whatever it makes. -/
theorem coordinator_writes {R : Reader} {desk : Coordinator.Config}
    {answer : Option (Option String)} {state : PyDict} {out : Written × List Write}
    (h : Coordinator.call R desk answer state = .ok out) :
    ∃ docId path, out.2 = [.verdictDocId docId, .verdictLocalPath path] := by
  revert out
  show Yields (fun out : Written × List Write =>
    ∃ docId path, out.2 = [.verdictDocId docId, .verdictLocalPath path]) _
  unfold Coordinator.call
  apply yields_bind; intro findings
  apply yields_bind; intro json
  cases desk.outputKind with
  | sheet =>
    apply yields_bind; intro row
    exact yields_ok ⟨_, _, rfl⟩
  | doc =>
    apply yields_bind; intro summary
    apply yields_bind; intro json
    rcases desk.newDoc with _ | newDoc
    · exact yields_ok ⟨_, _, rfl⟩
    · apply yields_bind; intro subject
      exact yields_ok ⟨_, _, rfl⟩

end

section

variable {R : Reader} {desk : Coordinator.Config} {answer : Option (Option String)} {s : TPRMState}
  {out : Written × List Write}

/-- A row has the categories of the findings of the state. -/
theorem coordinator_row (hkind : desk.outputKind = .sheet)
    (h : Coordinator.call R desk answer s.dump = .ok out) : ∃ row, out.1 = .row row ∧
      row.categories = ",".intercalate (s.findings.map (·.category)) := by
  unfold Coordinator.call at h
  simp only [s.coerceFindings_dump, hkind] at h
  change (R.dumpFindings s.findings >>= fun _ => _) = _ at h
  rcases hdump : R.dumpFindings s.findings with e | json
  · rw [hdump] at h
    cases h
  rw [hdump] at h
  unfold Coordinator.writeSheet Coordinator.rowOf at h
  simp only [bind, Except.bind, s.read_subject, s.read_verdict, s.read_score,
    Except.ok.injEq] at h
  subst h
  exact ⟨_, rfl, rfl⟩

/-- A memo has the sections for what stands in the state. -/
theorem coordinator_memo (hkind : desk.outputKind = .doc)
    (h : Coordinator.call R desk answer s.dump = .ok out) :
    ∃ summary json, R.dumpFindings s.findings = .ok json ∧
      match desk.newDoc with
      | none => out.1 = .nothing
      | some _ => ∃ docId, out.1 = .memo docId (Coordinator.sections summary json s.findings
          s.riskAssessment s.icMemo s.remediationPlan s.pmiPlan) := by
  have hscore : recordIn RiskScore.fields s.dump "risk_assessment" = s.riskAssessment :=
    recordIn_dump s rfl
  have hmemo : recordIn ICMemo.fields s.dump "ic_memo" = s.icMemo := recordIn_dump s rfl
  have hroadmap : recordIn RemediationPlan.fields s.dump "remediation_plan" = s.remediationPlan :=
    recordIn_dump s rfl
  have hplan : recordIn PMIPlan.fields s.dump "pmi_plan" = s.pmiPlan := recordIn_dump s rfl
  unfold Coordinator.call at h
  simp only [s.coerceFindings_dump, hkind] at h
  change (R.dumpFindings s.findings >>= fun _ => _) = _ at h
  rcases hdump : R.dumpFindings s.findings with e | json
  · rw [hdump] at h
    cases h
  rw [hdump] at h
  unfold Coordinator.writeDoc at h
  rcases hsummary : Coordinator.executiveSummary R ((answer.bind id).getD "") with e | summary
  · simp only [bind, Except.bind, hsummary, reduceCtorEq] at h
  refine ⟨summary, json, rfl, ?_⟩
  rcases hdoc : desk.newDoc with _ | newDoc
  · simp only [bind, Except.bind, hsummary, hdump, hdoc, Except.ok.injEq] at h
    subst h
    rfl
  · simp only [bind, Except.bind, hsummary, hdump, hdoc, s.read_subject, hscore, hmemo, hroadmap,
      hplan, Except.ok.injEq] at h
    subst h
    exact ⟨_, rfl⟩

end

/-! ## The course of a run -/

/-- The findings of the completeness gate, which only runs that write a memo have. -/
def gateFindings (cfg : ModeConfig) (W : World) : List Finding :=
  match cfg.outputKind with
  | .doc => vdrCompletenessCheck W.freshId W.packet.manifest
  | .sheet => []

/-- The findings of the gate, and of the specialists in the order of the fan-out. -/
def found (cfg : ModeConfig) (W : World) : List Finding :=
  gateFindings cfg W ++ cfg.active.flatMap W.returned

/-- What is known when the documents are in and the gate has passed. -/
structure Packed (cfg : ModeConfig) (W : World) (r : RunRequest) (s : TPRMState) : Prop where
  manifest : s.packetManifest = W.packet.manifest
  fileUris : s.fileUris = W.packet.fileUris
  routing : s.routing = .empty
  findings : s.findings = gateFindings cfg W
  maScope : s.maScope = r.maScope.getD none
  pmiPlan : s.pmiPlan = none

theorem update_fileUris (packet : Packet) : Dict.empty.update packet.fileUris = packet.fileUris :=
  Dict.ofList_entries _

/-- The stages before the router never fail. -/
theorem exec_early : ∃ s, exec r.runId (wiring.early cfg W) r.start = .ok s ∧ Packed cfg W r s := by
  obtain ⟨writes, subject, hintake, hwritten⟩ :=
    intake_dump (r.start.writeAll [.githubUrl W.githubUrl]) W.packet
  have huris := update_fileUris W.packet
  have hmanifest : ((r.start.writeAll [.githubUrl W.githubUrl]).writeAll writes).packetManifest =
      W.packet.manifest := by
    rw [hwritten]
    exact List.nil_append _
  unfold wiring.early
  cases hkind : cfg.outputKind with
  | sheet =>
    refine ⟨_, exec_one_iff.mpr ⟨_, rfl, exec_one_iff.mpr ⟨writes, hintake, rfl⟩⟩, ?_⟩
    exact {
      manifest := hmanifest
      fileUris := by rw [hwritten]; exact huris
      routing := by rw [hwritten]; rfl
      findings := by rw [hwritten, gateFindings, hkind]; rfl
      maScope := by rw [hwritten]; rfl
      pmiPlan := by rw [hwritten]; rfl }
  | doc =>
    have hgate := gate_dump ((r.start.writeAll [.githubUrl W.githubUrl]).writeAll writes) W.freshId
    rw [hmanifest] at hgate
    refine ⟨_, exec_one_iff.mpr ⟨_, rfl, exec_one_iff.mpr ⟨writes, hintake,
      exec_one_iff.mpr ⟨_, hgate, rfl⟩⟩⟩, ?_⟩
    rw [hwritten]
    exact {
      manifest := List.nil_append _
      fileUris := huris
      routing := rfl
      findings := by rw [gateFindings, hkind]; exact List.nil_append _
      maScope := rfl
      pmiPlan := rfl }

/-! ### From the router on -/

/-- The state after the router and the specialists. -/
def reviewed (cfg : ModeConfig) (W : World) (s : TPRMState) (docs : Routing) : TPRMState :=
  { s with
    routing := s.routing.update docs
    findings := s.findings ++ cfg.active.flatMap W.returned }

def scored (s : TPRMState) (score : RiskScore) : TPRMState :=
  { s with riskAssessment := some score }

def judged (cfg : ModeConfig) (s : TPRMState) : TPRMState :=
  { s with
    riskScore := PolicyAgent.score cfg.pack s.findings
    policyVerdict := (PolicyAgent.judge cfg.pack s.maScope s.findings).1
    icMemo := some (PolicyAgent.judge cfg.pack s.maScope s.findings).2 }

def remedied (s : TPRMState) (plan : RemediationPlan) : TPRMState :=
  { s with remediationPlan := some plan }

/-- What the remediation is given. -/
def toRemedy (cfg : ModeConfig) (W : World) (s : TPRMState) (docs : Routing) (score : RiskScore) :
    TPRMState := judged cfg (scored (reviewed cfg W s docs) score)

/-- What the coordinator is given. -/
def toWrite (cfg : ModeConfig) (W : World) (s : TPRMState) (docs : Routing) (score : RiskScore)
    (plan : RemediationPlan) : TPRMState := remedied (toRemedy cfg W s docs score) plan

theorem foldl_findings (batches : List (List Finding)) (s : TPRMState) :
    (batches.map (fun found => [Write.findings found])).foldl TPRMState.writeAll s =
      { s with findings := s.findings ++ batches.flatten } := by
  induction batches generalizing s with
  | nil => simp
  | cons first rest ih =>
    rw [List.map_cons, List.foldl_cons, ih]
    simp [TPRMState.writeAll, TPRMState.write]

/-- The specialists add what they return, in their order. -/
theorem spread_specialists (s : TPRMState) (join : Shim) :
    (Stage.fan (cfg.active.map (specialist W)) join).spread r.runId s =
      .ok { s with findings := s.findings ++ cfg.active.flatMap W.returned } := by
  rw [spread_fan (fun a => [.findings (W.returned a)]) (fun _ _ => rfl)]
  have hwritten := foldl_findings (cfg.active.map W.returned) s
  rw [List.map_map] at hwritten
  exact congrArg Except.ok hwritten

section

variable (runId : String) (s : TPRMState)

theorem router_call : (router cfg W).call runId s.dump =
    (docRouter W.reader cfg.activeNames (W.replies.map Replies.router) s.packetManifest).map
      (fun docs => [.routing docs]) := runRouter_dump ..

theorem riskScore_call : (riskScore cfg W).call runId s.dump =
    (RiskScoreAgent.assess W.reader cfg.pack (W.replies.map Replies.riskScore) s.findings).map
      (fun score => [.riskAssessment score]) := riskScore_dump ..

theorem policy_call : (policy cfg).call runId s.dump =
    .ok [.riskScore (PolicyAgent.score cfg.pack s.findings),
      .policyVerdict (PolicyAgent.judge cfg.pack s.maScope s.findings).1,
      .icMemo (PolicyAgent.judge cfg.pack s.maScope s.findings).2] := by
  show (PolicyAgent.call _ _ _).map _ = _
  rw [policy_dump]
  rfl

theorem remediation_call : (remediation W).call runId s.dump =
    (RemediationAgent.plan W.reader (W.replies.map Replies.remediation) s.policyVerdict s.icMemo
      s.findings).map (fun plan => [.remediationPlan plan]) := remediation_dump ..

theorem coordinator_call : (coordinator cfg W).call runId s.dump =
    (Coordinator.call W.reader (W.desk cfg) (W.replies.map Replies.coordinator) s.dump).map
      Prod.snd := rfl

theorem pmiPlanner_call : (pmiPlanner W).call runId s.dump =
    (PMIPlannerAgent.plan W.reader (W.replies.map Replies.planner) s.subjectName s.findings).map
      (fun plan => [.pmiPlan plan]) := planner_dump ..

end

/-- A run that reaches its end: what its agents come to, on the states that they are given. -/
structure Journey (cfg : ModeConfig) (W : World) (r : RunRequest) where
  packed : TPRMState
  docs : Routing
  score : RiskScore
  plan : RemediationPlan
  out : Written × List Write
  final : TPRMState
  early : exec r.runId (wiring.early cfg W) r.start = .ok packed
  routed : docRouter W.reader cfg.activeNames (W.replies.map Replies.router)
    packed.packetManifest = .ok docs
  assessed : RiskScoreAgent.assess W.reader cfg.pack (W.replies.map Replies.riskScore)
    (reviewed cfg W packed docs).findings = .ok score
  planned : RemediationAgent.plan W.reader (W.replies.map Replies.remediation)
    (toRemedy cfg W packed docs score).policyVerdict (toRemedy cfg W packed docs score).icMemo
    (toRemedy cfg W packed docs score).findings = .ok plan
  written : Coordinator.call W.reader (W.desk cfg) (W.replies.map Replies.coordinator)
    (toWrite cfg W packed docs score plan).dump = .ok out
  late : exec r.runId (wiring.late cfg W)
    ((toWrite cfg W packed docs score plan).writeAll out.2) = .ok final

/-- A run reaches its end on a journey. -/
theorem exec_stages_iff {s' : TPRMState} : exec r.runId (stages cfg W) r.start = .ok s' ↔
    ∃ j : Journey cfg W r, j.final = s' := by
  obtain ⟨s, hearly, -⟩ := exec_early cfg W r
  have hsplit : exec r.runId (stages cfg W) r.start =
      exec r.runId (.one (router cfg W) :: .fan (cfg.active.map (specialist W)) (riskScore cfg W) ::
        .one (policy cfg) :: .one (remediation W) :: .one (coordinator cfg W) ::
          wiring.late cfg W) s := by
    unfold stages
    rw [List.append_assoc, exec_append, hearly]
    rfl
  rw [hsplit, exec_map_iff (router_call cfg W r.runId s)]
  constructor
  · rintro ⟨docs, hdocs, hrest⟩
    rw [(exec_fan _ (spread_specialists cfg W r _ _)).1,
      exec_map_iff (riskScore_call cfg W r.runId _)] at hrest
    obtain ⟨score, hscore, hrest⟩ := hrest
    obtain ⟨writes, hpolicy, hrest⟩ := exec_one_iff.mp hrest
    rw [policy_call] at hpolicy
    cases hpolicy
    obtain ⟨plan, hplan, hrest⟩ := (exec_map_iff (remediation_call W r.runId _)).mp hrest
    obtain ⟨out, hout, hrest⟩ := (exec_map_iff (coordinator_call cfg W r.runId _)).mp hrest
    exact ⟨⟨s, docs, score, plan, out, s', hearly, hdocs, hscore, hplan, hout, hrest⟩, rfl⟩
  · rintro ⟨⟨t, docs, score, plan, out, final, hpacked, hdocs, hscore, hplan, hout, hlate⟩, rfl⟩
    obtain rfl : s = t := Except.ok.inj (hearly.symm.trans hpacked)
    refine ⟨docs, hdocs, ?_⟩
    rw [(exec_fan _ (spread_specialists cfg W r _ _)).1,
      exec_map_iff (riskScore_call cfg W r.runId _)]
    refine ⟨score, hscore, exec_one_iff.mpr ⟨_, policy_call cfg r.runId _, ?_⟩⟩
    exact (exec_map_iff (remediation_call W r.runId _)).mpr ⟨plan, hplan,
      (exec_map_iff (coordinator_call cfg W r.runId _)).mpr ⟨out, hout, hlate⟩⟩

theorem journey_of_completed {d : PyDict}
    (h : (runs.run (compiled cfg W) env r.input).outcome = .completed d) :
    ∃ j : Journey cfg W r, d = j.final.dump := by
  rw [outcome_run] at h
  rcases hexec : exec r.runId (stages cfg W) r.start with e | s
  · rw [hexec] at h
    cases h
  · rw [hexec] at h
    cases h
    obtain ⟨j, rfl⟩ := (exec_stages_iff cfg W r).mp hexec
    exact ⟨j, rfl⟩

theorem completed_of_journey (j : Journey cfg W r) :
    (runs.run (compiled cfg W) env r.input).outcome = .completed j.final.dump := by
  rw [outcome_run, (exec_stages_iff cfg W r).mpr ⟨j, rfl⟩]
  rfl

namespace Journey

variable {cfg W r} (j : Journey cfg W r)

/-- The state of the risk score. -/
def toScore : TPRMState := reviewed cfg W j.packed j.docs

/-- The state of the policy. -/
def toJudge : TPRMState := scored j.toScore j.score

/-- The state of the coordinator. -/
def toWrite : TPRMState := pipeline.toWrite cfg W j.packed j.docs j.score j.plan

theorem packed_early : Packed cfg W r j.packed := by
  obtain ⟨s, hs, hpacked⟩ := exec_early cfg W r
  obtain rfl : s = j.packed := Except.ok.inj (hs.symm.trans j.early)
  exact hpacked

/-- The end of a run: the coordinator writes where its record is, and the planner its plan. -/
theorem final_eq : ∃ docId path, match cfg.outputKind with
    | .sheet => j.final = { j.toWrite with verdictDocId := docId, verdictLocalPath := path }
    | .doc => ∃ plan, PMIPlannerAgent.plan W.reader (W.replies.map Replies.planner)
        j.toWrite.subjectName j.toWrite.findings = .ok plan ∧
      j.final = { j.toWrite with
        verdictDocId := docId, verdictLocalPath := path, pmiPlan := some plan } := by
  obtain ⟨docId, path, hwrites⟩ := coordinator_writes j.written
  have hlate := j.late
  unfold wiring.late at hlate
  rw [hwrites] at hlate
  refine ⟨docId, path, ?_⟩
  cases hkind : cfg.outputKind with
  | sheet =>
    rw [hkind] at hlate
    exact (Except.ok.inj hlate).symm
  | doc =>
    rw [hkind] at hlate
    obtain ⟨plan, hplan, hfinal⟩ := (exec_map_iff (pmiPlanner_call W r.runId _)).mp hlate
    exact ⟨plan, hplan, (Except.ok.inj hfinal).symm⟩

/-- What the coordinator and the planner do not write stays as the coordinator finds it. -/
theorem final_same {α : Type} (field : TPRMState → α)
    (hwhere : ∀ s docId path,
      field { s with verdictDocId := docId, verdictLocalPath := path } = field s)
    (hplan : ∀ s plan, field { s with pmiPlan := plan } = field s) :
    field j.final = field j.toWrite := by
  obtain ⟨docId, path, hfinal⟩ := j.final_eq
  cases hkind : cfg.outputKind with
  | sheet =>
    rw [hkind] at hfinal
    rw [hfinal, hwhere]
  | doc =>
    rw [hkind] at hfinal
    obtain ⟨plan, -, hfinal⟩ := hfinal
    rw [hfinal, hplan { j.toWrite with verdictDocId := docId, verdictLocalPath := path }, hwhere]

/-- The states from the router to the coordinator. -/
theorem given_stages : given r.runId (stages cfg W) r.start =
    given r.runId (wiring.early cfg W) r.start ++
      ([("router", j.packed), ("risk_score", j.toScore), ("policy", j.toJudge),
        ("remediation", toRemedy cfg W j.packed j.docs j.score), ("coordinator", j.toWrite)] ++
      given r.runId (wiring.late cfg W) (j.toWrite.writeAll j.out.2)) := by
  unfold stages
  rw [List.append_assoc, given_append j.early]
  congr 1
  refine (given_map (router_call cfg W r.runId _) j.routed).trans (congrArg _ ?_)
  refine (exec_fan _ (spread_specialists cfg W r _ _)).2.trans ?_
  refine (given_map (riskScore_call cfg W r.runId j.toScore) j.assessed).trans (congrArg _ ?_)
  refine (given_one (policy_call cfg r.runId j.toJudge)).trans (congrArg _ ?_)
  refine (given_map (remediation_call W r.runId _) j.planned).trans (congrArg _ ?_)
  exact given_map (coordinator_call cfg W r.runId _) j.written

end Journey

/-! ## What a node is given -/

/-- The states that a node is given in a run. -/
def seen (G : CompiledGraph) (env : Env) (input : RunInput) (id : String) : List PyDict :=
  ((visitsOfRun G env input).filter (fun v => v.1 = id)).map Prod.snd

theorem filter_given {runId id : String} {stages : List Stage} {s : TPRMState}
    (h : id ∉ stages.map (fun stage => stage.main.id)) :
    (given runId stages s).filter (fun v => v.1 = id) = [] := by
  rw [List.filter_eq_nil_iff]
  rintro ⟨id', t⟩ hmem heq
  have hid : id' = id := by simpa using heq
  subst hid
  exact h ((ids_given stages s).subset (List.mem_map_of_mem hmem))

theorem ids_early : (wiring.early cfg W).map (fun stage => stage.main.id) ⊆
    ["bootstrap", "intake", "vdr_gate"] := by
  unfold wiring.early
  cases cfg.outputKind <;> simp [Stage.main, bootstrap, intake, vdrGate]

theorem ids_late : (wiring.late cfg W).map (fun stage => stage.main.id) ⊆ ["pmi_planner"] := by
  unfold wiring.late
  cases cfg.outputKind <;> simp [Stage.main, pmiPlanner]

/-- The risk score, the policy and the coordinator are each given one state. -/
theorem seen_journey (j : Journey cfg W r) :
    seen (compiled cfg W) env r.input "risk_score" = [j.toScore.dump] ∧
      seen (compiled cfg W) env r.input "policy" = [j.toJudge.dump] ∧
      seen (compiled cfg W) env r.input "coordinator" = [j.toWrite.dump] := by
  have hseen : ∀ id, seen (compiled cfg W) env r.input id =
      ((given r.runId (stages cfg W) r.start).filter (fun v => v.1 = id)).map
        (fun v => v.2.dump) := by
    intro id
    unfold seen
    rw [visits_run, List.filter_map, List.map_map]
    rfl
  have hends : ∀ id, id ∉ ["bootstrap", "intake", "vdr_gate"] → id ∉ ["pmi_planner"] →
      (given r.runId (stages cfg W) r.start).filter (fun v => v.1 = id) =
        [("router", j.packed), ("risk_score", j.toScore), ("policy", j.toJudge),
          ("remediation", toRemedy cfg W j.packed j.docs j.score),
          ("coordinator", j.toWrite)].filter (fun v => v.1 = id) := by
    intro id hearly hlate
    rw [j.given_stages, List.filter_append, List.filter_append,
      filter_given (fun hmem => hearly (ids_early cfg W hmem)),
      filter_given (fun hmem => hlate (ids_late cfg W hmem)), List.append_nil, List.nil_append]
  refine ⟨?_, ?_, ?_⟩
  all_goals
    rw [hseen, hends _ (by decide) (by decide)]
    simp

end orchestra.tprm.pipeline
