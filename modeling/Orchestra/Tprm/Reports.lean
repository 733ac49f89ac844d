-- The agents that write up a run (`agents/remediation.py`, `agents/coordinator.py`,
-- `agents/pmi_planner.py`): the plan for the findings, the row or the memo with the verdict, and
-- the plan for the integration.
import Orchestra.Lib.Decimal
import Orchestra.Tprm.Answers
import Orchestra.Tprm.State

open dicts texts decimals orchestra.tprm.schemas orchestra.tprm.state orchestra.tprm.answers

namespace orchestra.tprm.reports

/-- `"\n".join(lines)` -/
def joined (lines : List String) : String := "\n".intercalate lines

/-- `"\n".join(lines).rstrip()` -/
def block (lines : List String) : String := String.ofList (rstrip (joined lines).toList)

/-- A record of the state, which is `None` when it does not pass. -/
def recordIn {α : Type} (F : ModelFields α) (state : PyDict) (key : String) : Option α :=
  match readField (recordOrNone F) state key none with
  | .ok record => record
  | .error _ => none

/-! ## Remediation -/

namespace RemediationAgent

def approves (verdict : String) : Bool := verdict = "approve" || verdict = "proceed"

/-- `should_run_remediation` -/
def shouldRunRemediation (verdict : String) (memo : Option ICMemo) (findings : List Finding) :
    Bool :=
  let isApprove := approves verdict || (memo.map (approves ·.recommendation.text)).getD false
  !(isApprove && !findings.any (·.severity.actionable))

def emptyPlan (summary : String) : RemediationPlan := ⟨[], 0, summary⟩

/-- The items of an answer that pass as a `RemediationItem`. -/
def itemsOf (R : Reader) (raws : List Json) : List RemediationItem :=
  raws.filterMap (fun raw =>
    match raw with
    | .dict members => R.remediationItem members
    | _ => none)

/-- The horizon of a plan. For the number 0 it is the longest of the efforts. -/
def horizonOf (items : List RemediationItem) (horizon : Int) : Int :=
  if horizon = 0 then (items.map (fun i => i.estEffortDays.getD 0)).max?.getD 0 else horizon

/-- The plan in an answer. -/
def readPlan (R : Reader) (content : String) : Except Raised RemediationPlan :=
  match R.loads (stripJsonFences R content) with
  | .error _ =>
    .ok (emptyPlan "Remediation plan unavailable — parse error or LLM timeout.")
  | .ok (.dict members) => do
    let raws ← ((Json.get? members "items").getD (.list [])).iterate
    let horizon ← ((Json.get? members "horizon_days").getD (.int 0)).toInt R
    let items := itemsOf R raws
    .ok ⟨items, horizonOf items horizon, ((Json.get? members "summary").getD (.str "")).text R⟩
  | .ok _ =>
    .ok (emptyPlan "Remediation plan unavailable — LLM returned unexpected shape.")

/-- The plan for the findings of a state. Without a text the plan is unavailable. -/
def plan (R : Reader) (answer : Option (Option String)) (verdict : String) (memo : Option ICMemo)
    (findings : List Finding) : Except Raised RemediationPlan :=
  if !shouldRunRemediation verdict memo findings then
    .ok (emptyPlan "No remediation required — clean approval.")
  else if !findings.any (·.severity.actionable) then .ok (emptyPlan "No actionable findings.")
  else
    match answer with
    | some (some content) => readPlan R content
    | _ => .ok (emptyPlan "Remediation plan unavailable — parse error or LLM timeout.")

/-- `__call__` -/
def call (R : Reader) (answer : Option (Option String)) (state : PyDict) :
    Except Raised (List Write) := do
  let verdict ← readField str state "policy_verdict" ""
  let findings ← coerceFindings state
  let plan ← plan R answer verdict (recordIn ICMemo.fields state "ic_memo") findings
  .ok [.remediationPlan plan]

end RemediationAgent

/-! ## The coordinator -/

inductive OutputKind
  | sheet
  | doc
deriving DecidableEq, Repr

/-- The row of the sheet. -/
structure Row where
  subject : String
  policyVerdict : String
  riskScore : Int
  riskAssessment : String
  remediation : String
  categories : String
  narrative : String
deriving DecidableEq, Repr

/-- What the coordinator writes out: a row, or the sections of a memo. -/
inductive Written
  | row (row : Row)
  | memo (docId : String) (sections : List (String × String))
  | nothing
deriving DecidableEq

namespace Coordinator

/-- `_ma_sections_from_text`, of which only this section is read. -/
def executiveSummary (R : Reader) (narrative : String) : Except Raised String := do
  let raw := stripJsonFences R (strip narrative)
  let found ←
    if startsWith raw "\x7b" then
      match R.loads raw with
      | .ok (.dict members) =>
        .ok (((Json.get? members "Executive Summary").map (Json.text R)).getD "")
      | .error (.other e) => .error e
      | _ => .ok raw
    else .ok raw
  .ok (if found ≠ "" then found else if narrative ≠ "" then narrative
    else "(no narrative produced)")

/-- The numbers of the findings by decision. -/
def countsByIc (findings : List Finding) : Dict String Nat :=
  findings.foldl (fun d f =>
    let key := (f.icDecision.map IcDecision.text).getD "unclassified"
    d.set key ((d.get? key).getD 0 + 1)) .empty

def sorted {α : Type} (entries : List (String × α)) : List (String × α) :=
  entries.mergeSort (fun d e => !decide (e.1 < d.1))

def severityRank : Severity → Nat
  | .critical => 0
  | .high => 1
  | .medium => 2
  | .low => 3

def exposureText (range : Int × Int) : String :=
  "$" ++ grouped range.1 ++ "–$" ++ grouped range.2

/-- `_render_workstream_section` -/
def renderWorkstreamSection (workstream : String) (findings : List Finding) : String :=
  let counts := ", ".intercalate ((sorted (countsByIc findings).entries).map
    (fun e => e.1 ++ ": " ++ toString e.2))
  let top := (findings.mergeSort (fun f g =>
    decide (severityRank f.severity ≤ severityRank g.severity))).take 3
  let details := top.map (fun f => "  - [" ++ upper f.severity.text ++ "] " ++ f.category ++ ": " ++
    f.summary ++ (f.exposureUsdRange.map (fun r => " (exposure " ++ exposureText r ++ ")")).getD "")
  "Workstream: " ++ title workstream ++ "\nFindings (" ++ toString findings.length ++ "): " ++
    (if counts ≠ "" then counts else "no IC-classified findings") ++ "\nTop issues:\n" ++
    (if details.isEmpty then "  - (none)" else joined details)

/-- `_render_risk_register` -/
def renderRiskRegister (memo : Option ICMemo) : String :=
  match (memo.map (·.riskRegister)).getD [] with
  | [] => "No risks registered."
  | items => joined (
    "Finding ID | Workstream | Exposure (USD) | Mitigation | Probability" ::
    "---------- | ---------- | -------------- | ---------- | -----------" ::
    items.map (fun i => i.findingId ++ " | " ++ i.workstream ++ " | " ++
      (i.exposureUsdRange.map exposureText).getD "—" ++ " | " ++ i.mitigation.text ++ " | " ++
      i.probability.text))

def itemLine (i : PMIItem) : String :=
  let dep := match i.dependency with
    | some d => if d ≠ "" then " (depends on: " ++ d ++ ")" else ""
    | none => ""
  "  - [" ++ i.workstream ++ "] " ++ i.action ++ " — owner: " ++ i.owner ++ dep

/-- The lines of one tier, if it has items. -/
def tierLines (items : List PMIItem) (tier : DeadlineTier) : List String :=
  match items.filter (fun i => i.deadlineTier = tier) with
  | [] => []
  | own => ("## " ++ upper tier.text) :: own.map itemLine ++ [""]

/-- `_render_pmi_plan` -/
def renderPmiPlan (plan : Option PMIPlan) : String :=
  match plan with
  | none => "No PMI actions planned."
  | some plan =>
    if plan.items.isEmpty then "No PMI actions planned."
    else block ((if plan.summary ≠ "" then [plan.summary, ""] else []) ++
      DeadlineTier.all.flatMap (tierLines plan.items))

def riskScoreLines (score : RiskScore) : List String :=
  ["Overall: " ++ toString score.overall.val ++ "/100 (" ++ upper score.verdict.text ++ ")", "",
    score.explanation] ++
  (if score.topRiskDrivers.isEmpty then [] else ["", "Top Risk Drivers:"] ++
    score.topRiskDrivers.map (fun d =>
      "  - [" ++ d.dimension ++ "] (" ++ d.severity.text ++ ") " ++ d.oneLiner)) ++
  (if score.dimensions.entries.isEmpty then [] else ["", "Per-Dimension Scores:"] ++
    (score.dimensions.entries.mergeSort (fun d e => decide (e.2 ≤ d.2))).map (fun e =>
      "  - " ++ e.1 ++ ": " ++ toString e.2 ++ "/100"))

def icMemoSection (memo : Option ICMemo) : String :=
  match memo with
  | none => "(no IC memo available — vendor-mode or missing MAScope)"
  | some memo => joined (
    ["Recommendation: " ++ upper memo.recommendation.text, "",
      if memo.headlineTerms ≠ "" then memo.headlineTerms else "(no headline terms)"] ++
    (if memo.executiveSummary ≠ "" then ["", memo.executiveSummary] else []))

/-- The findings of each workstream. -/
def byWorkstream (findings : List Finding) : Dict String (List Finding) :=
  findings.foldl (fun d f =>
    let key := (f.workstream.map Workstream.text).getD "general"
    d.set key ((d.get? key).getD [] ++ [f])) .empty

def workstreamReports (findings : List Finding) : String :=
  let text := block ((sorted (byWorkstream findings).entries).flatMap
    (fun e => [renderWorkstreamSection e.1 e.2, ""]))
  if text ≠ "" then text else "(no workstream-tagged findings)"

def roadmapLines (plan : RemediationPlan) : List String :=
  [plan.summary, "", "Horizon: " ++ toString plan.horizonDays ++ " days"] ++
  Priority.all.flatMap (fun priority =>
    match plan.items.filter (fun i => i.priority = priority) with
    | [] => []
    | bucket => ["", priority.text ++ ":"] ++ bucket.flatMap (fun i =>
      ["  - " ++ i.action ++ "  [" ++ i.owner.text ++ ", " ++
        (i.estEffortDays.map (fun days => "~" ++ toString days ++ "d")).getD "?" ++ "]",
        "    Leverage: " ++ i.leverage]))

/-- The sections of a memo, in their order. `json` is the dump of the findings. -/
def sections (summary json : String) (findings : List Finding) (score : Option RiskScore)
    (memo : Option ICMemo) (roadmap : Option RemediationPlan) (plan : Option PMIPlan) :
    List (String × String) :=
  [("Executive Summary", summary)] ++
  (score.map (fun score => ("Risk Score", joined (riskScoreLines score)))).toList ++
  [("IC Memo", icMemoSection memo), ("Workstream Reports", workstreamReports findings),
    ("Risk Register", renderRiskRegister memo)] ++
  (roadmap.map (fun plan => ("Remediation Roadmap", joined (roadmapLines plan)))).toList ++
  [("PMI 100-Day Plan", renderPmiPlan plan), ("Appendix: Full Findings", json)]

/-- What the coordinator is set up with. `newDoc` is the id of a document with this title, when
there is an adapter for documents. `csvPath` is where the file with this name is kept. -/
structure Config where
  outputKind : OutputKind
  sheetId : String
  docId : String
  newDoc : Option (String → String)
  csvPath : String → String

/-- The row of `_write_sheet`. -/
def rowOf (state : PyDict) (findings : List Finding) (narrative : String) : Except Raised Row := do
  let subject ← readField str state "subject_name" ""
  let verdict ← readField str state "policy_verdict" ""
  let score ← readField wholeFloat state "risk_score" 0
  let assessment := recordIn RiskScore.fields state "risk_assessment"
  let remediation := recordIn RemediationPlan.fields state "remediation_plan"
  .ok {
    subject
    policyVerdict := verdict
    riskScore := score
    riskAssessment := (assessment.map (fun a =>
      toString a.overall.val ++ "/100 (" ++ a.verdict.text ++ ")")).getD ""
    remediation := (remediation.map (fun p => if p.items.isEmpty then "None" else
      toString p.items.length ++ " item(s), " ++ toString p.horizonDays ++ "d horizon")).getD ""
    categories := ",".intercalate (findings.map (·.category))
    narrative }

/-- `_write_sheet` -/
def writeSheet (cfg : Config) (state : PyDict) (findings : List Finding) (narrative : String) :
    Except Raised (Written × List Write) := do
  let row ← rowOf state findings narrative
  let file := cfg.csvPath ((if cfg.sheetId ≠ "" then cfg.sheetId else "verdict") ++ ".csv")
  .ok (.row row, [.verdictDocId cfg.sheetId, .verdictLocalPath ("file://" ++ file)])

/-- `_write_doc` -/
def writeDoc (R : Reader) (cfg : Config) (state : PyDict) (findings : List Finding)
    (narrative : String) : Except Raised (Written × List Write) := do
  let summary ← executiveSummary R narrative
  let json ← R.dumpFindings findings
  let sections := sections summary json findings
    (recordIn RiskScore.fields state "risk_assessment") (recordIn ICMemo.fields state "ic_memo")
    (recordIn RemediationPlan.fields state "remediation_plan")
    (recordIn PMIPlan.fields state "pmi_plan")
  match cfg.newDoc with
  | none => .ok (.nothing, [.verdictDocId cfg.docId, .verdictLocalPath ""])
  | some newDoc => do
    let subject ← readField str state "subject_name" "unknown"
    let docId := if cfg.docId ≠ "" then cfg.docId else newDoc ("Deal Memo — " ++ subject)
    .ok (.memo docId sections, [.verdictDocId docId, .verdictLocalPath ("doc://" ++ docId)])

/-- `__call__`. The prompt holds a dump of the findings. -/
def call (R : Reader) (cfg : Config) (answer : Option (Option String)) (state : PyDict) :
    Except Raised (Written × List Write) := do
  let findings ← coerceFindings state
  let _ ← R.dumpFindings findings
  let narrative := (answer.bind id).getD ""
  match cfg.outputKind with
  | .sheet => writeSheet cfg state findings narrative
  | .doc => writeDoc R cfg state findings narrative

end Coordinator

/-! ## The planner -/

namespace PMIPlannerAgent

def icFindings (findings : List Finding) : List Finding :=
  findings.filter (fun f => f.icDecision.isSome)

/-- `_tier_for_finding` -/
def tierForFinding (f : Finding) : DeadlineTier :=
  if f.severity = .critical ∧ (f.workstream = some .tech ∨ f.workstream = some .regulatory) then
    .day30
  else if f.icDecision = some .dealStopper then .day30
  else if f.workstream = some .legal ∧ (f.severity = .high ∨ f.severity = .critical) then .day30
  else
    match f.workstream with
    | some .tech => .day60
    | some .hr => .day60
    | some .financial => .day100
    | some .commercial => .day100
    | _ => .day180

/-- `_owner_for_workstream` -/
def ownerForWorkstream : Workstream → String
  | .legal => "General Counsel"
  | .financial => "CFO"
  | .tech => "CIO"
  | .commercial => "Chief Revenue Officer"
  | .hr => "CHRO"
  | .esg => "Chief Sustainability Officer"
  | .regulatory => "Chief Compliance Officer"

def fallbackItem (f : Finding) : PMIItem where
  workstream := (f.workstream.getD .regulatory).text
  action := if f.summary ≠ "" then "Remediate: " ++ f.summary
    else "Address " ++ f.category ++ " finding"
  deadlineTier := tierForFinding f
  owner := ownerForWorkstream (f.workstream.getD .regulatory)
  dependency := none

/-- `_fallback_plan` -/
def fallbackPlan (findings : List Finding) : PMIPlan where
  summary := "PMI 100-day plan synthesised from " ++ toString findings.length ++
    " IC-classified findings using deterministic tier-assignment rules (no LLM available)."
  items := findings.map fallbackItem

/-- The item of an answer, unless its workstream is unknown or it has no action. -/
def itemOf (R : Reader) : Json → Option PMIItem
  | .dict members =>
    let textOf := fun key default => ((Json.get? members key).getD (.str default)).text R
    let workstream := lower (textOf "workstream" "")
    let tier := (DeadlineTier.all.find? (·.text = textOf "deadline_tier" "")).getD .day100
    let action := strip (textOf "action" "")
    let owner := strip (textOf "owner" "Integration PMO")
    let dependency := match (Json.get? members "dependency").getD .null with
      | .null => none
      | v => some (v.text R)
    if workstream ∉ Workstream.all.map Workstream.text ∨ action = "" then none
    else some ⟨workstream, action, tier, if owner ≠ "" then owner else "Integration PMO",
      dependency⟩
  | _ => none

/-- The plan in the object of an answer. -/
def planOf (R : Reader) (subject : String) (members : List (String × Json)) :
    Except Raised PMIPlan := do
  let raw := (Json.get? members "items").getD .null
  let items ← if raw.truthy then raw.iterate else .ok []
  let items := items.filterMap (itemOf R)
  let summary := strip (((Json.get? members "summary").getD (.str "")).text R)
  .ok ⟨if summary ≠ "" then summary else
    "PMI 100-day plan for " ++ subject ++ " (" ++ toString items.length ++ " actions).", items⟩

/-- The plan in an answer about findings with a decision. -/
def readPlan (R : Reader) (subject : String) (findings : List Finding) (content : String) :
    Except Raised PMIPlan :=
  let text := strip content
  if text = "" then .ok (fallbackPlan findings)
  else
    match R.loads (stripJsonFences R text) with
    | .error (.decode _) =>
      .ok { fallbackPlan findings with
        summary := "PMI plan generated by deterministic fallback — LLM returned non-JSON: " ++
          cut text 120 }
    | .error (.other e) => .error e
    | .ok (.dict members) => planOf R subject members
    | .ok _ => .ok (fallbackPlan findings)

def emptyPlan : PMIPlan :=
  ⟨"No PMI actions warranted — no IC-classified findings produced by the diligence run.", []⟩

/-- The plan for the findings of a state. -/
def plan (R : Reader) (answer : Option (Option String)) (subject : String)
    (findings : List Finding) : Except Raised PMIPlan :=
  let ic := icFindings findings
  if ic.isEmpty then .ok emptyPlan
  else
    match answer with
    | none => .ok (fallbackPlan ic)
    | some content => do
      let _ ← R.dumpFindings ic
      readPlan R subject ic (content.getD "")

/-- `__call__` -/
def call (R : Reader) (answer : Option (Option String)) (state : PyDict) :
    Except Raised (List Write) := do
  let findings ← coerceFindings state
  let subject ← readField str state "subject_name" "unknown"
  let plan ← plan R answer subject findings
  .ok [.pmiPlan plan]

end PMIPlannerAgent

end orchestra.tprm.reports
