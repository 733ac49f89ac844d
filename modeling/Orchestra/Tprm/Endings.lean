-- When a diligence run reaches its end: what each answer of a model has to be like for the agent
-- that reads it, and that nothing else decides whether there is a verdict.
import Orchestra.Tprm.Coverage
import Orchestra.Tprm.Pipeline

open dicts texts fallible orchestra.state orchestra.compiled orchestra.runs
open orchestra.tprm.schemas orchestra.tprm.state orchestra.tprm.answers orchestra.tprm.routing
open orchestra.tprm.verdicts orchestra.tprm.reports orchestra.tprm.stages orchestra.tprm.graph
open orchestra.tprm.wiring orchestra.tprm.pipeline orchestra.tprm.coverage

namespace orchestra.tprm.endings

/-! ## What an answer has to be like -/

/-- A value that a loop can go through. -/
def Iterable : Json → Prop
  | .str _ | .list _ | .dict _ => True
  | _ => False

/-- A value that can be a key of a dict. -/
def Hashable : Json → Prop
  | .list _ | .dict _ => False
  | _ => True

/-- A value for `specialists`: an empty one, or one with the names of agents or other keys. -/
def NamesAgents (v : Json) : Prop :=
  v.truthy = false ∨ Iterable v ∧ ∀ items, v = .list items → ∀ item ∈ items, Hashable item

/-- The text is no JSON that `json.loads` gives up on with another error than a decode error. -/
def Loads (R : Reader) (text : String) : Prop := ∀ e, R.loads text ≠ .error (.other e)

/-- An answer to the router: the objects of its list, if it has one, name agents. -/
def RouterReads (R : Reader) (content : Option String) : Prop :=
  ∀ text, bracketed (strip (content.getD "")) = some text →
    Loads R text ∧ ∀ items, R.loads text = .ok (.list items) → ∀ members, .dict members ∈ items →
      NamesAgents ((Json.get? members "specialists").getD (.list []))

/-- An answer to the remediation: an object has items to go through, and a number of days. -/
def RemediationReads (R : Reader) (content : String) : Prop :=
  ∀ members, R.loads (stripJsonFences R content) = .ok (.dict members) →
    Iterable ((Json.get? members "items").getD (.list [])) ∧
      ∃ days, ((Json.get? members "horizon_days").getD (.int 0)).toInt R = .ok days

/-- An answer to the coordinator. Only one that begins like an object is read as one. -/
def NarrativeReads (R : Reader) (narrative : String) : Prop :=
  startsWith (stripJsonFences R (strip narrative)) "\x7b" = true →
    Loads R (stripJsonFences R (strip narrative))

/-- An answer to the planner: an object has no items, or items to go through. -/
def PlannerReads (R : Reader) (content : String) : Prop :=
  strip content ≠ "" →
    Loads R (stripJsonFences R (strip content)) ∧
      ∀ members, R.loads (stripJsonFences R (strip content)) = .ok (.dict members) →
        ((Json.get? members "items").getD .null).truthy = false ∨
          Iterable ((Json.get? members "items").getD .null)

/-! ## The router -/

theorem ends_iterate (v : Json) : Ends v.iterate ↔ Iterable v := by
  cases v <;> simp [Json.iterate, Iterable]

theorem ends_namesIn (items : List Json) :
    Ends (namesIn items) ↔ ∀ item ∈ items, Hashable item := by
  induction items with
  | nil => simp [namesIn]
  | cons item rest ih =>
    rw [List.forall_mem_cons, ← ih]
    cases item <;> simp [namesIn, Hashable, ends_map]

theorem hashable_of_mem_map {α : Type} {f : α → String} {xs : List α} {item : Json}
    (h : item ∈ xs.map (fun a => .str (f a))) : Hashable item := by
  obtain ⟨a, -, rfl⟩ := List.mem_map.mp h
  trivial

theorem ends_names (v : Json) : Ends (v.iterate >>= namesIn) ↔
    Iterable v ∧ ∀ items, v = .list items → ∀ item ∈ items, Hashable item := by
  cases v with
  | list items =>
    show Ends (namesIn items) ↔ _
    simp [ends_namesIn, Iterable]
  | str s =>
    have hends : Ends (namesIn (s.toList.map (fun c => Json.str c.toString))) :=
      (ends_namesIn _).mpr (fun _ => hashable_of_mem_map)
    exact iff_of_true hends ⟨trivial, by simp⟩
  | dict members =>
    have hends : Ends (namesIn (members.map (fun e => Json.str e.1))) :=
      (ends_namesIn _).mpr (fun _ => hashable_of_mem_map)
    exact iff_of_true hends ⟨trivial, by simp⟩
  | _ => simp [Json.iterate, Iterable, ends_bind]

theorem ends_pairsOf (R : Reader) (item : List (String × Json)) : Ends (pairsOf R item) ↔
    NamesAgents ((Json.get? item "specialists").getD (.list [])) := by
  have hpairs : Ends (pairsOf R item) ↔ Ends
      ((if ((Json.get? item "specialists").getD (.list [])).truthy then
        (Json.get? item "specialists").getD (.list []) else .list []).iterate >>= namesIn) :=
    ends_then fun _ => ends_ok _
  rw [hpairs]
  generalize (Json.get? item "specialists").getD (.list []) = v
  unfold NamesAgents
  cases hv : v.truthy with
  | true => simp [ends_names]
  | false => simp [ends_names, Iterable]

theorem ends_pairsOfAll (R : Reader) (items : List (List (String × Json))) :
    Ends (pairsOfAll R items) ↔
      ∀ item ∈ items, NamesAgents ((Json.get? item "specialists").getD (.list [])) := by
  induction items with
  | nil => simp [pairsOfAll]
  | cons item rest ih =>
    rw [List.forall_mem_cons, ← ih, ← ends_pairsOf R]
    show Ends (pairsOf R item >>= fun pairs => pairsOfAll R rest >>= fun later => .ok _) ↔ _
    have hrest := fun pairs : List (String × String) => ends_then (x := pairsOfAll R rest)
      (f := fun later => .ok (pairs ++ later)) (fun _ => ends_ok _)
    simp only [ends_bind (pairsOf R item), hrest]
    exact exists_and_right

theorem members?_eq_some {v : Json} {members : List (String × Json)} :
    members? v = some members ↔ v = .dict members := by
  cases v <;> simp [members?]

theorem ends_routedPairs (R : Reader) (content : Option String) (manifest : List ManifestEntry) :
    Ends (routedPairs R content manifest) ↔ RouterReads R content := by
  have hpairs : Ends (routedPairs R content manifest) ↔
      ∃ items, routedItems R content = .ok items ∧ Ends (pairsOfAll R items) := by
    unfold routedPairs
    rw [ends_bind]
    refine exists_congr fun items => and_congr_right fun _ => ?_
    rcases items with _ | ⟨item, rest⟩
    · simp [pairsOfAll]
    · rfl
  rw [hpairs]
  unfold RouterReads routedItems
  rcases bracketed (strip (content.getD "")) with _ | text
  · simp [pairsOfAll]
  simp only [Option.some.injEq, forall_eq']
  rcases hloads : R.loads text with (message | error) | v
  · simp [Loads, hloads, pairsOfAll]
  · simp [Loads, hloads]
  · have hnone : Loads R text := by simp [Loads, hloads]
    cases v with
    | list items => simp [hnone, ends_pairsOfAll, members?_eq_some]
    | _ => simp [hnone, pairsOfAll]

/-- Without a provider there is no answer to read. -/
theorem ends_docRouter (R : Reader) (active : List String) (answer : Option (Option String))
    (manifest : List ManifestEntry) : Ends (docRouter R active answer manifest) ↔
      ∀ content, answer = some content → RouterReads R content := by
  rcases answer with _ | content
  · simp [docRouter]
  · rw [docRouter_eq, ends_map, ends_routedPairs]
    simp

/-! ## The risk score -/

theorem ends_score (weights : Dict String Int) (findings : List Finding) :
    Ends (RiskScoreAgent.score weights findings) ↔ (weights.get? "critical").getD 15 ≠ 0 := by
  have hsome : ((max findings.length 1 : Nat) : Int) ≠ 0 := by omega
  unfold RiskScoreAgent.score
  simp only [ends_ite, ends_error, ends_ok, implies_true, and_true, imp_false, mul_eq_zero, hsome,
    false_or, ne_eq]

theorem ends_scoreEach {weights : Dict String Int} (h : (weights.get? "critical").getD 15 ≠ 0)
    (groups : List (String × List Finding)) : Ends (RiskScoreAgent.scoreEach weights groups) := by
  induction groups with
  | nil => exact ends_ok _
  | cons group rest ih =>
    unfold RiskScoreAgent.scoreEach
    rw [ends_bind]
    obtain ⟨overall, hscore⟩ := (ends_score weights group.2).mpr h
    exact ⟨overall, hscore, (ends_then fun _ => ends_ok _).mpr ih⟩

/-- A risk score is made of the weight of a critical finding. -/
theorem ends_assess (R : Reader) (pack : PolicyPack) (answer : Option (Option String))
    (findings : List Finding) : Ends (RiskScoreAgent.assess R pack answer findings) ↔
      findings = [] ∨ ((RiskScoreAgent.weights pack).get? "critical").getD 15 ≠ 0 := by
  unfold RiskScoreAgent.assess
  rcases findings with _ | ⟨f, rest⟩
  · simp
  · have hdims : ∀ h : ((RiskScoreAgent.weights pack).get? "critical").getD 15 ≠ 0,
        Ends (RiskScoreAgent.dimensions (RiskScoreAgent.weights pack) (f :: rest)) :=
      fun h => (ends_map _ _).mpr (ends_scoreEach h _)
    simp only [List.isEmpty_cons, Bool.false_eq_true, if_false, reduceCtorEq, false_or]
    rw [← ends_score _ (f :: rest)]
    constructor
    · intro h
      obtain ⟨overall, hscore, -⟩ := (ends_bind _ _).mp h
      exact ⟨overall, hscore⟩
    · intro h
      have hcritical := (ends_score _ _).mp h
      obtain ⟨overall, hscore⟩ := h
      exact (ends_bind _ _).mpr ⟨overall, hscore, (ends_then fun _ => ends_ok _).mpr
        (hdims hcritical)⟩

/-! ## The remediation -/

theorem ends_readRemediation (R : Reader) (content : String) :
    Ends (RemediationAgent.readPlan R content) ↔ RemediationReads R content := by
  unfold RemediationAgent.readPlan RemediationReads
  rcases R.loads (stripJsonFences R content) with e | v
  · simp
  cases v with
  | dict members =>
    simp only [Except.ok.injEq, Json.dict.injEq, forall_eq', ← ends_iterate]
    show Ends (Json.iterate _ >>= fun raws => Json.toInt R _ >>= fun horizon => .ok _) ↔ _
    rw [ends_bind]
    constructor
    · rintro ⟨raws, hraws, hdays⟩
      obtain ⟨days, hdays, -⟩ := (ends_bind _ _).mp hdays
      exact ⟨⟨raws, hraws⟩, days, hdays⟩
    · rintro ⟨⟨raws, hraws⟩, days, hdays⟩
      exact ⟨raws, hraws, (ends_bind _ _).mpr ⟨days, hdays, ends_ok _⟩⟩
  | _ => simp

/-- The remediation reads an answer when there is something to act on. -/
theorem ends_remediation (R : Reader) (answer : Option (Option String)) (verdict : String)
    (memo : Option ICMemo) (findings : List Finding) :
    Ends (RemediationAgent.plan R answer verdict memo findings) ↔
      ∀ content, answer = some (some content) → findings.any (·.severity.actionable) = true →
        RemediationReads R content := by
  unfold RemediationAgent.plan
  cases hact : findings.any (·.severity.actionable) with
  | false => simp [ends_ite]
  | true =>
    have hrun : RemediationAgent.shouldRunRemediation verdict memo findings = true := by
      simp [RemediationAgent.shouldRunRemediation, hact]
    rcases answer with _ | _ | content
    · simp [hrun]
    · simp [hrun]
    · simp [hrun, ends_readRemediation]

/-! ## The coordinator -/

theorem ends_executiveSummary (R : Reader) (narrative : String) :
    Ends (Coordinator.executiveSummary R narrative) ↔ NarrativeReads R narrative := by
  unfold Coordinator.executiveSummary NarrativeReads Loads
  simp only [bind, Except.bind]
  cases startsWith (stripJsonFences R (strip narrative)) "\x7b" with
  | false => simp
  | true =>
    rcases R.loads (stripJsonFences R (strip narrative)) with (message | error) | v
    · simp
    · simp
    · cases v <;> simp

theorem ends_rowOf (s : TPRMState) (findings : List Finding) (narrative : String) :
    Ends (Coordinator.rowOf s.dump findings narrative) := by
  unfold Coordinator.rowOf
  rw [s.read_subject, s.read_verdict, s.read_score]
  exact ends_ok _

theorem ends_coordinator (R : Reader) (desk : Coordinator.Config)
    (answer : Option (Option String)) (s : TPRMState) :
    Ends (Coordinator.call R desk answer s.dump) ↔ Ends (R.dumpFindings s.findings) ∧
      (desk.outputKind = .doc → NarrativeReads R ((answer.bind id).getD "")) := by
  unfold Coordinator.call
  rw [s.coerceFindings_dump]
  cases desk.outputKind with
  | sheet =>
    have hsheet := ends_rowOf s s.findings ((answer.bind id).getD "")
    rw [show (OutputKind.sheet = .doc → _) ↔ True by simp, and_true]
    exact ends_then fun _ => (ends_then fun _ => ends_ok _).mpr hsheet
  | doc =>
    rw [show (OutputKind.doc = .doc → NarrativeReads R ((answer.bind id).getD "")) ↔
      NarrativeReads R ((answer.bind id).getD "") by simp, ← ends_executiveSummary]
    refine (ends_seq _ _).trans (and_congr_right fun hdump => ?_)
    -- The memo has another dump of the findings.
    refine (ends_bind _ _).trans (exists_congr fun summary => and_iff_left ?_)
    obtain ⟨json, hjson⟩ := hdump
    refine (ends_bind _ _).mpr ⟨json, hjson, ?_⟩
    rcases desk.newDoc with _ | newDoc
    · exact ends_ok _
    · simp only [s.read_subject]
      exact ends_ok _

/-! ## The planner -/

theorem ends_planOf (R : Reader) (subject : String) (members : List (String × Json)) :
    Ends (PMIPlannerAgent.planOf R subject members) ↔
      ((Json.get? members "items").getD .null).truthy = false ∨
        Iterable ((Json.get? members "items").getD .null) := by
  unfold PMIPlannerAgent.planOf
  rw [← ends_iterate]
  generalize (Json.get? members "items").getD .null = raw
  simp only [bind, Except.bind]
  cases raw.truthy with
  | false => simp
  | true => 
    rcases raw.iterate with e | items <;> simp

theorem ends_readPlan (R : Reader) (subject : String) (findings : List Finding)
    (content : String) : Ends (PMIPlannerAgent.readPlan R subject findings content) ↔
      PlannerReads R content := by
  unfold PMIPlannerAgent.readPlan PlannerReads Loads
  by_cases hempty : strip content = ""
  · simp [hempty]
  · simp only [hempty, if_false, ne_eq, not_false_eq_true, forall_const]
    rcases R.loads (stripJsonFences R (strip content)) with (message | error) | v
    · simp
    · simp
    · cases v <;> simp [ends_planOf]

/-- The planner reads an answer when a finding has a decision. -/
theorem ends_planner (R : Reader) (answer : Option (Option String)) (subject : String)
    (findings : List Finding) : Ends (PMIPlannerAgent.plan R answer subject findings) ↔
      ∀ content, answer = some content → PMIPlannerAgent.icFindings findings ≠ [] →
        Ends (R.dumpFindings (PMIPlannerAgent.icFindings findings)) ∧
          PlannerReads R (content.getD "") := by
  unfold PMIPlannerAgent.plan
  rcases PMIPlannerAgent.icFindings findings with _ | ⟨f, rest⟩
  · simp
  rcases answer with _ | content
  · simp
  · simp only [List.isEmpty_cons, Bool.false_eq_true, if_false, Option.some.injEq, forall_eq',
      ne_eq, reduceCtorEq, not_false_eq_true, forall_const]
    rw [ends_seq, ends_readPlan]

/-! ## Runs -/

/-- The agents can read the answers that they are given, and the findings can be counted and
dumped. -/
structure Answered (cfg : ModeConfig) (W : World) : Prop where
  router : ∀ content, W.replies.map Replies.router = some content → RouterReads W.reader content
  weights : found cfg W = [] ∨
    ((RiskScoreAgent.weights cfg.pack).get? "critical").getD 15 ≠ 0
  remediation : ∀ content, W.replies.map Replies.remediation = some (some content) →
    (found cfg W).any (·.severity.actionable) = true → RemediationReads W.reader content
  dump : Ends (W.reader.dumpFindings (found cfg W))
  narrative : cfg.outputKind = .doc →
    NarrativeReads W.reader (((W.replies.map Replies.coordinator).bind id).getD "")
  planner : cfg.outputKind = .doc → ∀ content, W.replies.map Replies.planner = some content →
    PMIPlannerAgent.icFindings (found cfg W) ≠ [] →
      Ends (W.reader.dumpFindings (PMIPlannerAgent.icFindings (found cfg W))) ∧
        PlannerReads W.reader (content.getD "")

variable {cfg : ModeConfig} {W : World} {r : RunRequest}

theorem findings_reviewed {s : TPRMState} (h : Packed cfg W r s) (docs : Routing) :
    (reviewed cfg W s docs).findings = found cfg W := by
  show s.findings ++ _ = _
  rw [h.findings]
  rfl

theorem answered_of_journey (j : Journey cfg W r) : Answered cfg W := by
  have hfound : (reviewed cfg W j.packed j.docs).findings = found cfg W :=
    findings_reviewed j.packed_early j.docs
  have hassessed := (ends_assess ..).mp ⟨_, j.assessed⟩
  have hplanned := (ends_remediation ..).mp ⟨_, j.planned⟩
  obtain ⟨hdump, hnarrative⟩ := (ends_coordinator ..).mp ⟨_, j.written⟩
  have hfinal := j.final_eq
  rw [show (pipeline.toWrite cfg W j.packed j.docs j.score j.plan).findings =
    (reviewed cfg W j.packed j.docs).findings from rfl, hfound] at hdump
  rw [show (toRemedy cfg W j.packed j.docs j.score).findings =
    (reviewed cfg W j.packed j.docs).findings from rfl, hfound] at hplanned
  rw [hfound] at hassessed
  refine ⟨(ends_docRouter ..).mp ⟨_, j.routed⟩, hassessed, hplanned, hdump, hnarrative, ?_⟩
  intro hkind
  obtain ⟨docId, path, hfinal⟩ := hfinal
  rw [hkind] at hfinal
  obtain ⟨plan, hplan, -⟩ := hfinal
  rw [show j.toWrite.findings = (reviewed cfg W j.packed j.docs).findings from rfl, hfound] at hplan
  exact (ends_planner ..).mp ⟨plan, hplan⟩

/-- An empty text is no object. -/
theorem narrativeReads_empty (R : Reader) : NarrativeReads R "" := by
  have hplain : startsWith (stripJsonFences R (strip "")) "\x7b" = false := rfl
  intro hobject
  rw [hplain] at hobject
  cases hobject

/-- Without a provider nothing has to be read. -/
theorem answered_of_silence (hreplies : W.replies = none)
    (hweights : ((RiskScoreAgent.weights cfg.pack).get? "critical").getD 15 ≠ 0)
    (hdump : Ends (W.reader.dumpFindings (found cfg W))) : Answered cfg W where
  router := by simp [hreplies]
  weights := .inr hweights
  remediation := by simp [hreplies]
  dump := hdump
  narrative _ := by
    rw [hreplies]
    exact narrativeReads_empty _
  planner := by simp [hreplies]

theorem journey_of_answered (h : Answered cfg W) : Nonempty (Journey cfg W r) := by
  obtain ⟨s, hearly, hpacked⟩ := exec_early cfg W r
  obtain ⟨docs, hdocs⟩ := (ends_docRouter W.reader cfg.activeNames (W.replies.map Replies.router)
    s.packetManifest).mpr h.router
  have hfound := findings_reviewed hpacked docs
  obtain ⟨score, hscore⟩ := (ends_assess W.reader cfg.pack (W.replies.map Replies.riskScore)
    (reviewed cfg W s docs).findings).mpr (by rw [hfound]; exact h.weights)
  obtain ⟨plan, hplan⟩ := (ends_remediation W.reader (W.replies.map Replies.remediation)
    (toRemedy cfg W s docs score).policyVerdict (toRemedy cfg W s docs score).icMemo
    (reviewed cfg W s docs).findings).mpr (by rw [hfound]; exact h.remediation)
  obtain ⟨out, hout⟩ := (ends_coordinator W.reader (W.desk cfg)
    (W.replies.map Replies.coordinator) (pipeline.toWrite cfg W s docs score plan)).mpr
      ⟨(congrArg (fun found => Ends (W.reader.dumpFindings found)) hfound).mpr h.dump, h.narrative⟩
  have hlate : ∃ final, exec r.runId (wiring.late cfg W)
      ((pipeline.toWrite cfg W s docs score plan).writeAll out.2) = .ok final := by
    unfold wiring.late
    cases hkind : cfg.outputKind with
    | sheet => exact ⟨_, rfl⟩
    | doc =>
      obtain ⟨docId, path, hwrites⟩ := coordinator_writes hout
      rw [hwrites]
      obtain ⟨pmi, hpmi⟩ := (ends_planner W.reader (W.replies.map Replies.planner)
        (pipeline.toWrite cfg W s docs score plan).subjectName
        (reviewed cfg W s docs).findings).mpr (by rw [hfound]; exact h.planner hkind)
      exact ⟨_, (exec_map_iff (pmiPlanner_call W r.runId _)).mpr ⟨pmi, hpmi, rfl⟩⟩
  obtain ⟨final, hfinal⟩ := hlate
  exact ⟨⟨s, docs, score, plan, out, final, hearly, hdocs, hscore, hplan, hout, hfinal⟩⟩

theorem verdict_ne_empty (pack : PolicyPack) (scope : Option MAScope) (findings : List Finding) :
    (PolicyAgent.judge pack scope findings).1 ≠ "" := by
  rcases scope with _ | scope
  · show (PolicyAgent.verdict pack findings _).text ≠ ""
    cases PolicyAgent.verdict pack findings (PolicyAgent.score pack findings) <;> decide
  · show (PolicyAgent.recommendation scope findings).text ≠ ""
    cases PolicyAgent.recommendation scope findings <;> decide

theorem verdict_final (j : Journey cfg W r) : j.final.policyVerdict =
    (PolicyAgent.judge cfg.pack (r.maScope.getD none) (found cfg W)).1 := by
  have hfound := findings_reviewed j.packed_early j.docs
  have hjudged : j.toWrite.policyVerdict =
      (PolicyAgent.judge cfg.pack j.packed.maScope (reviewed cfg W j.packed j.docs).findings).1 :=
    rfl
  rw [j.final_same TPRMState.policyVerdict (fun _ _ _ => rfl) (fun _ _ => rfl), hjudged, hfound,
    j.packed_early.maScope]

/-- A run of the graph reaches its end with a verdict if and only if its agents can read the
answers. -/
theorem reaches_a_verdict_iff (cfg : ModeConfig) (W : World) (env : Env) (r : RunRequest) :
    ∃ G, buildGraph cfg W = .ok G ∧
      ((∃ s : TPRMState, (runs.run G env r.input).outcome = .completed s.dump ∧
        s.policyVerdict ≠ "") ↔ Answered cfg W) := by
  refine ⟨_, buildGraph_eq cfg W, ?_⟩
  constructor
  · rintro ⟨s, hcompleted, -⟩
    obtain ⟨j, -⟩ := journey_of_completed cfg W env r hcompleted
    exact answered_of_journey j
  · intro h
    obtain ⟨j⟩ := journey_of_answered (r := r) h
    refine ⟨j.final, completed_of_journey cfg W env r j, ?_⟩
    rw [verdict_final]
    exact verdict_ne_empty _ _ _

/-! ## A number for the specialists -/

/-- One of the texts loads, to this value. The others are no JSON. -/
def oneText (text : String) (value : Json) : Reader where
  loads found := if found = text then .ok value else .error (.decode "Expecting value")
  reprStr s := s
  intOfText _ := .error ⟨"ValueError", "invalid literal for int()", false⟩
  isWord c := c.isAlphanum
  intOrNone _ := .ok none
  remediationItem _ := none
  dumpFindings _ := .ok "[]"

/-- A mode with one specialist, which writes a row. -/
def vendorMode : ModeConfig where
  specialists s := if s = .legal then some "model" else none
  outputKind := .sheet
  pack := ⟨none, none, true, none, none⟩

/-- A mode that writes a memo. -/
def memoMode : ModeConfig := { vendorMode with outputKind := .doc }

/-- A packet with one document, about which the specialists find nothing. -/
def quietWorld (reader : Reader) (replies : Option Replies) : World where
  reader
  packet := .folder [⟨"msa.pdf", "/packet/msa.pdf", some "contract"⟩] none
  replies
  ran _ := .ok []
  freshId name := name
  githubUrl := ""
  sheetId := ""
  docId := ""
  newDoc := none
  csvPath name := name

def numberText : String := "[\x7b\"doc\": \"msa.pdf\", \"specialists\": 5\x7d]"

/-- An answer of the router. -/
def numberAnswer : World :=
  quietWorld (oneText numberText (.list [.dict [("doc", .str "msa.pdf"), ("specialists", .int 5)]]))
    (some ⟨some numberText, none, none, none, none⟩)

def vendorRequest : RunRequest := ⟨.vendor, "Acme", "/packet", none, "run"⟩

/-- The router goes through the specialists of an item. A number ends the run there. -/
theorem a_number_for_the_specialists_ends_the_run :
    ∃ G, buildGraph vendorMode numberAnswer = .ok G ∧
      ¬ ∃ d, (runs.run G inOrder vendorRequest.input).outcome = .completed d := by
  refine ⟨_, buildGraph_eq vendorMode numberAnswer, ?_⟩
  rintro ⟨d, hcompleted⟩
  obtain ⟨j, -⟩ := journey_of_completed _ _ _ _ hcompleted
  have hreads := (answered_of_journey j).router (some numberText) rfl numberText (by decide +kernel)
  have hnumber := hreads.2 _ rfl _ List.mem_cons_self
  rcases hnumber with hfalsy | ⟨hiterable, -⟩
  · exact absurd hfalsy (by decide)
  · exact hiterable

end orchestra.tprm.endings
