-- The agents that judge the findings of a run (`agents/risk_score.py`, `agents/policy.py`): the
-- risk score with its drivers, and the verdict of the policy with the memo for the committee.
-- Floats are exact.
import Orchestra.Lib.Decimal
import Orchestra.Tprm.Answers
import Orchestra.Tprm.State

open dicts texts decimals orchestra.tprm.schemas orchestra.tprm.state orchestra.tprm.answers

namespace orchestra.tprm.verdicts

/-! ## The policy pack -/

/-- What the agents read of a policy pack. -/
structure PolicyPack where
  weights : Option (Dict String Int)
  thresholds : Option (Int × Int)
  rejectIfAnyCritical : Bool
  rejectAbove : Option Int
  conditionalAbove : Option Int

/-- `weights.get(f.severity, 0)` -/
def weightOf (weights : Dict String Int) (severity : Severity) : Int :=
  (weights.get? severity.text).getD 0

/-! ## The risk score -/

namespace RiskScoreAgent

def weights (pack : PolicyPack) : Dict String Int :=
  pack.weights.getD (Dict.ofList [("low", 1), ("medium", 3), ("high", 7), ("critical", 15)])

/-- `_verdict` -/
def verdict (pack : PolicyPack) (overall : Int) : Light :=
  let (greenMax, amberMax) := pack.thresholds.getD (30, 69)
  if overall ≤ greenMax then .green else if overall ≤ amberMax then .amber else .red

/-- `min(100, max(0, overall))` -/
def clamp (overall : Int) : Percent := ⟨min 100 (max 0 overall), by omega⟩

/-- `_score` -/
def score (weights : Dict String Int) (findings : List Finding) : Except Raised Percent :=
  let weighted := (findings.map (fun f => weightOf weights f.severity)).sum
  let maxPossible := (max findings.length 1 : Nat) * (weights.get? "critical").getD 15
  if maxPossible = 0 then .error ⟨"ZeroDivisionError", "division by zero", false⟩
  else .ok (clamp (roundInt ((100 * weighted : Int) / (maxPossible : Rat))))

/-- `f.agent.replace("Agent", "").lower()` -/
def dimension (f : Finding) : String := lower (remove f.agent "Agent")

/-- The findings of each dimension, in the order in which the dimensions come up. -/
def byAgent (findings : List Finding) : Dict String (List Finding) :=
  findings.foldl (fun d f => d.set (dimension f) ((d.get? (dimension f)).getD [] ++ [f])) .empty

def scoreEach (weights : Dict String Int) :
    List (String × List Finding) → Except Raised (List (String × Int))
  | [] => .ok []
  | (dim, items) :: rest => do
    let overall ← score weights items
    let later ← scoreEach weights rest
    .ok ((dim, overall.val) :: later)

/-- `_dimensions` -/
def dimensions (weights : Dict String Int) (findings : List Finding) :
    Except Raised (Dict String Int) :=
  (scoreEach weights (byAgent findings).entries).map Dict.ofList

/-- `_top_drivers`. The sort is stable. -/
def topDrivers (weights : Dict String Int) (findings : List Finding) (n : Nat) : List Finding :=
  (findings.mergeSort (fun f g =>
    decide (weightOf weights g.severity ≤ weightOf weights f.severity))).take n

/-- `_fallback` -/
def fallback (dimensions : Dict String Int) (drivers : List Finding) : String × List String :=
  let topDims := (dimensions.entries.mergeSort (fun d e => decide (e.2 ≤ d.2))).take 2
  let explanation :=
    if topDims.isEmpty then "Risk profile not narratable."
    else "Risk concentrated in " ++ ", ".intercalate (topDims.map Prod.fst) ++ "."
  (explanation, drivers.map (fun f => cut f.summary 120))

/-- The body of the `try` in `_narrate`, where it does not raise. -/
def readNarrative (R : Reader) (content : String) : Option (String × List String) :=
  match R.loads (stripJsonFences R content) with
  | .ok (.dict members) =>
    let explanation := strip (((Json.get? members "explanation").getD (.str "")).text R)
    match ((Json.get? members "driver_one_liners").getD (.list [])).iterate with
    | .ok items =>
      if explanation = "" || items.isEmpty then none
      else some (explanation, items.map (Json.text R))
    | .error _ => none
  | _ => none

/-- `_narrate`. Every error of the `try` leads to the fallback. -/
def narrate (R : Reader) (answer : Option (Option String)) (drivers : List Finding)
    (dimensions : Dict String Int) : String × List String :=
  match drivers, answer with
  | _ :: _, some (some content) =>
    (readNarrative R content).getD (fallback dimensions drivers)
  | _, _ => fallback dimensions drivers

/-- The line of a driver: its own one, else its summary. -/
def oneLiner (oneLiners : List String) (i : Nat) (f : Finding) : String :=
  match oneLiners[i]? with
  | some line => if line ≠ "" then line else cut f.summary 120
  | none => cut f.summary 120

/-- The assessment of a list of findings. -/
def assess (R : Reader) (pack : PolicyPack) (answer : Option (Option String))
    (findings : List Finding) : Except Raised RiskScore :=
  if findings.isEmpty then
    .ok ⟨clamp 0, .green, .empty, [], "No findings emitted by specialists."⟩
  else do
    let overall ← score (weights pack) findings
    let dims ← dimensions (weights pack) findings
    let drivers := topDrivers (weights pack) findings 3
    let (explanation, oneLiners) := narrate R answer drivers dims
    .ok {
      overall
      verdict := verdict pack overall.val
      dimensions := dims
      topRiskDrivers := drivers.mapIdx (fun i f =>
        ⟨dimension f, f.id, f.severity, oneLiner oneLiners i f⟩)
      explanation }

/-- `__call__` -/
def call (R : Reader) (pack : PolicyPack) (answer : Option (Option String)) (state : PyDict) :
    Except Raised (List Write) := do
  let findings ← coerceFindings state
  let score ← assess R pack answer findings
  .ok [.riskAssessment score]

end RiskScoreAgent

/-! ## The policy -/

/-- What the policy appends to the audit table. -/
structure Audit where
  runId : String
  findings : List Finding
  mode : String
  subject : String
deriving DecidableEq

inductive VendorVerdict
  | approve
  | conditionalApprove
  | reject
deriving DecidableEq, Repr

def VendorVerdict.text : VendorVerdict → String
  | approve => "approve"
  | conditionalApprove => "conditional-approve"
  | reject => "reject"

namespace PolicyAgent

/-- `_ic_to_mitigation` -/
def icToMitigation : Option IcDecision → Mitigation
  | some .dealStopper => .cp
  | some .priceAdjustment => .priceChip
  | some .spaProtection => .indemnity
  | _ => .postClose

/-- `_severity_to_probability` -/
def severityToProbability : Severity → Probability
  | .critical => .high
  | .high => .high
  | .medium => .medium
  | .low => .low

def weights (pack : PolicyPack) : Dict String Int := pack.weights.getD .empty

def score (pack : PolicyPack) (findings : List Finding) : Int :=
  (findings.map (fun f => weightOf (weights pack) f.severity)).sum

/-- `_verdict` -/
def verdict (pack : PolicyPack) (findings : List Finding) (score : Int) : VendorVerdict :=
  if pack.rejectIfAnyCritical && findings.any (fun f => f.severity = .critical) then .reject
  else if pack.rejectAbove.getD 30 < score then .reject
  else if pack.conditionalAbove.getD 10 < score then .conditionalApprove
  else .approve

/-- A finding that the memo counts as a deal-stopper. -/
def stopsDeal (scope : MAScope) (f : Finding) : Bool :=
  f.icDecision = some .dealStopper || scope.dealBreakers.any (fun breaker =>
    breaker ≠ "" && contains (lower f.summary) (lower breaker))

def upperExposure (f : Finding) : Int := (f.exposureUsdRange.map Prod.snd).getD 0

/-- The threshold for a new price: the one of the scope, else 2 % of the value. -/
def threshold (scope : MAScope) : Option Int :=
  match scope.materialityThresholdUsd, scope.enterpriseValueUsd with
  | some limit, _ => some limit
  | none, some value => if value = 0 then none else some ((value * 2).tdiv 100)
  | none, none => none

def recommendation (scope : MAScope) (findings : List Finding) : Recommendation :=
  if findings.any (stopsDeal scope) then .walk
  else
    match threshold scope with
    | some limit => if limit < (findings.map upperExposure).sum then .reprice else .proceed
    | none => .proceed

/-- The entry of a finding in the risk register, if it has a decision. -/
def riskItem (f : Finding) : Option ICRiskItem :=
  f.icDecision.map (fun decision => {
    findingId := f.id
    workstream := (f.workstream.map Workstream.text).getD "unknown"
    exposureUsdRange := f.exposureUsdRange
    mitigation := icToMitigation (some decision)
    probability := severityToProbability f.severity })

def topExposure (findings : List Finding) : Int :=
  (findings.filterMap (·.exposureUsdRange)).foldl (fun top range => max top range.2) 0

def headline (recommendation : Recommendation) (top : Int) : String :=
  let first := "Recommendation: " ++ upper recommendation.text
  if top ≠ 0 then first ++ "; top single-finding exposure ~$" ++ grouped top else first

/-- `_build_ic_memo` -/
def buildIcMemo (findings : List Finding) (scope : MAScope) : ICMemo where
  executiveSummary := ""
  headlineTerms := headline (recommendation scope findings) (topExposure findings)
  recommendation := recommendation scope findings
  riskRegister := findings.filterMap riskItem

/-- The memo of a run without a scope. -/
def emptyMemo : ICMemo := ⟨"", "", .proceed, []⟩

/-- The verdict and the memo. With a scope the committee decides. -/
def judge (pack : PolicyPack) (scope : Option MAScope) (findings : List Finding) :
    String × ICMemo :=
  match scope with
  | some scope =>
    let memo := buildIcMemo findings scope
    (memo.recommendation.text, memo)
  | none => ((verdict pack findings (score pack findings)).text, emptyMemo)

/-- `__call__`: what goes to the audit table, and what is written. -/
def call (pack : PolicyPack) (runId : String) (state : PyDict) :
    Except Raised (Audit × List Write) := do
  let findings ← coerceFindings state
  let scope ← readField (recordOrNone MAScope.fields) state "ma_scope" none
  let mode ← readField Mode.model state "mode" .vendor
  let subject ← readField str state "subject_name" ""
  let (verdictText, memo) := judge pack scope findings
  .ok (⟨runId, findings, mode.text, subject⟩,
    [.riskScore (score pack findings), .policyVerdict verdictText, .icMemo memo])

end PolicyAgent

end orchestra.tprm.verdicts
