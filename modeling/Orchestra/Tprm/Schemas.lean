-- The schemas of the diligence runs (`orchestra_tprm/schemas.py`): findings and what the agents
-- make of them, each with its dump and with what pydantic reads of one.
import Orchestra.Lib.Records
import Orchestra.Lib.Text
import Orchestra.Values

open dicts records texts

namespace orchestra.tprm.schemas

/-! ## Plain values -/

/-- A codec between values of a state and `α`. What pydantic coerces beyond a dump is left out. -/
abbrev Model (α : Type) := Codec Value String α

/-- The lists and the dicts of Python. -/
def containers : Containers String Value String where
  list := {
    dump := .list
    parse := fun
      | .list items => .ok items
      | _ => .error "Input should be a valid list"
    parse_dump := fun _ => rfl }
  dict := {
    dump := .dict
    parse := fun
      | .dict entries => .ok entries
      | _ => .error "Input should be a valid dictionary"
    parse_dump := fun _ => rfl }

def str : Model String where
  dump := .str
  parse
    | .str s => .ok s
    | _ => .error "Input should be a valid string"
  parse_dump _ := rfl

def int : Model Int where
  dump := .int
  parse
    | .int i => .ok i
    | _ => .error "Input should be a valid integer"
  parse_dump _ := rfl

/-- `Any` -/
def any : Model Value where
  dump := id
  parse := .ok
  parse_dump _ := rfl

/-- A float that is a whole number. -/
def wholeFloat : Model Int where
  dump i := .obj "float" [("value", .int i)]
  parse
    | .obj "float" [("value", .int i)] => .ok i
    | _ => .error "Input should be a valid number"
  parse_dump _ := rfl

/-- `tuple[int, int]`. A tuple stands as the list of its items. -/
def intPair : Model (Int × Int) where
  dump p := .list [.int p.1, .int p.2]
  parse
    | .list [.int a, .int b] => .ok (a, b)
    | _ => .error "Input should be a valid tuple"
  parse_dump _ := rfl

/-- `Literal[...]` -/
def literal {α : Type} (all : List α) (text : α → String)
    (h : ∀ a, (all.map (fun a => (text a, a))).lookup (text a) = some a) : Model α :=
  str.names (all.map (fun a => (text a, a))) text "Input should be one of the literals" h

theorem literal_ne_none {α : Type} {all : List α} {text : α → String}
    {h : ∀ a, (all.map (fun a => (text a, a))).lookup (text a) = some a} (a : α) :
    (literal all text h).dump a ≠ .none := by
  simp [literal, Codec.names, str]

/-- `X | None` -/
def orNone {α : Type} (model : Model α) (h : ∀ a, model.dump a ≠ .none) : Model (Option α) :=
  model.option .none h

def listOf {α : Type} (model : Model α) : Model (List α) := containers.listOf model

def dictOf {α : Type} (model : Model α) : Model (Dict String α) := containers.dictOf model

/-! ## The fields of a model -/

abbrev ModelFields (α : Type) := Fields String Value String α

/-- A field without a default. -/
def required {α β : Type} (name : String) (model : Model α) (rest : ModelFields β)
    (fresh : name ∉ rest.names := by decide +kernel) : ModelFields (α × β) :=
  .cons name model (.error ("Field required: " ++ name)) rest fresh

def optional {α β : Type} (name : String) (model : Model α) (default : α) (rest : ModelFields β)
    (fresh : name ∉ rest.names := by decide +kernel) : ModelFields (α × β) :=
  .cons name model (.ok default) rest fresh

/-! ## Findings -/

inductive Severity
  | low
  | medium
  | high
  | critical
deriving DecidableEq, Repr

namespace Severity

def all : List Severity := [.low, .medium, .high, .critical]

def text : Severity → String
  | low => "low"
  | medium => "medium"
  | high => "high"
  | critical => "critical"

/-- `_coerce_severity` -/
def coerce (v : Value) : Severity :=
  match v with
  | .none => medium
  | v => ((all.map (fun s => (s.text, s))).lookup (lower v.text)).getD medium

/-- `_NormalizedSeverity` -/
def model : Model Severity where
  dump s := .str s.text
  parse v := .ok (coerce v)
  parse_dump s := by cases s <;> decide +kernel

/-- `SeverityLiteral` -/
def literalModel : Model Severity := literal all text (fun a => by cases a <;> decide +kernel)

/-- A severity that remediation takes up: medium or more. -/
def actionable : Severity → Bool
  | low => false
  | _ => true

end Severity

inductive IcDecision
  | dealStopper
  | priceAdjustment
  | spaProtection
  | postCloseMonitoring
deriving DecidableEq, Repr

namespace IcDecision

def all : List IcDecision := [.dealStopper, .priceAdjustment, .spaProtection, .postCloseMonitoring]

def text : IcDecision → String
  | dealStopper => "deal-stopper"
  | priceAdjustment => "price-adjustment"
  | spaProtection => "SPA-protection"
  | postCloseMonitoring => "post-close-monitoring"

def model : Model IcDecision := literal all text (fun a => by cases a <;> decide +kernel)

end IcDecision

inductive Workstream
  | legal
  | financial
  | tech
  | commercial
  | hr
  | esg
  | regulatory
deriving DecidableEq, Repr

namespace Workstream

def all : List Workstream := [.legal, .financial, .tech, .commercial, .hr, .esg, .regulatory]

def text : Workstream → String
  | legal => "legal"
  | financial => "financial"
  | tech => "tech"
  | commercial => "commercial"
  | hr => "hr"
  | esg => "esg"
  | regulatory => "regulatory"

def model : Model Workstream := literal all text (fun a => by cases a <;> decide +kernel)

end Workstream

structure Citation where
  fileId : String
  documentId : Option Int
  page : Option Int
  offset : Option Int
  snippet : String
deriving DecidableEq, Repr

/-- `int | None = None` -/
def intOrNone : Model (Option Int) := orNone int (fun _ => by rintro ⟨⟩)

namespace Citation

def fields : ModelFields Citation :=
  (required "file_id" str <| optional "document_id" intOrNone none <|
    optional "page" intOrNone none <| optional "offset" intOrNone none <|
    optional "snippet" str "" .nil).iso
    (fun (fileId, documentId, page, offset, snippet, _) =>
      ⟨fileId, documentId, page, offset, snippet⟩)
    (fun c => (c.fileId, c.documentId, c.page, c.offset, c.snippet, ()))
    (fun _ => rfl)

def model : Model Citation := fields.codec containers

end Citation

/-- A finding. Every dump has its `id`: the default is for a new one. -/
structure Finding where
  agent : String
  category : String
  severity : Severity
  evidence : List Citation
  summary : String
  raw : Dict String Value
  id : String
  exposureUsdRange : Option (Int × Int)
  icDecision : Option IcDecision
  workstream : Option Workstream
deriving DecidableEq

def exposureOrNone : Model (Option (Int × Int)) := orNone intPair (fun _ => by rintro ⟨⟩)

namespace Finding

def fields : ModelFields Finding :=
  (required "agent" str <| required "category" str <| required "severity" Severity.model <|
    optional "evidence" (listOf Citation.model) [] <| required "summary" str <|
    optional "raw" (dictOf any) .empty <| required "id" str <|
    optional "exposure_usd_range" exposureOrNone none <|
    optional "ic_decision" (orNone IcDecision.model literal_ne_none) none <|
    optional "workstream" (orNone Workstream.model literal_ne_none) none .nil).iso
    (fun (agent, category, severity, evidence, summary, raw, id, exposureUsdRange, icDecision,
        workstream, _) =>
      ⟨agent, category, severity, evidence, summary, raw, id, exposureUsdRange, icDecision,
        workstream⟩)
    (fun f => (f.agent, f.category, f.severity, f.evidence, f.summary, f.raw, f.id,
      f.exposureUsdRange, f.icDecision, f.workstream, ()))
    (fun _ => rfl)

def model : Model Finding := fields.codec containers

end Finding

/-! ## The scope of a deal, and the memo -/

structure MAScope where
  investmentThesis : String
  enterpriseValueUsd : Option Int
  materialityThresholdUsd : Option Int
  dealBreakers : List String
  activeWorkstreams : List String
deriving DecidableEq, Repr

namespace MAScope

def fields : ModelFields MAScope :=
  (optional "investment_thesis" str "" <| optional "enterprise_value_usd" intOrNone none <|
    optional "materiality_threshold_usd" intOrNone none <|
    optional "deal_breakers" (listOf str) [] <|
    optional "active_workstreams" (listOf str) [] .nil).iso
    (fun (investmentThesis, enterpriseValueUsd, materialityThresholdUsd, dealBreakers,
        activeWorkstreams, _) =>
      ⟨investmentThesis, enterpriseValueUsd, materialityThresholdUsd, dealBreakers,
        activeWorkstreams⟩)
    (fun s => (s.investmentThesis, s.enterpriseValueUsd, s.materialityThresholdUsd,
      s.dealBreakers, s.activeWorkstreams, ()))
    (fun _ => rfl)

def model : Model MAScope := fields.codec containers

end MAScope

inductive Mitigation
  | priceChip
  | indemnity
  | escrow
  | rwi
  | earnOut
  | cp
  | postClose
deriving DecidableEq, Repr

namespace Mitigation

def all : List Mitigation := [.priceChip, .indemnity, .escrow, .rwi, .earnOut, .cp, .postClose]

def text : Mitigation → String
  | priceChip => "price-chip"
  | indemnity => "indemnity"
  | escrow => "escrow"
  | rwi => "RWI"
  | earnOut => "earn-out"
  | cp => "CP"
  | postClose => "post-close"

def model : Model Mitigation := literal all text (fun a => by cases a <;> decide +kernel)

end Mitigation

inductive Probability
  | low
  | medium
  | high
deriving DecidableEq, Repr

namespace Probability

def all : List Probability := [.low, .medium, .high]

def text : Probability → String
  | low => "low"
  | medium => "medium"
  | high => "high"

def model : Model Probability := literal all text (fun a => by cases a <;> decide +kernel)

end Probability

inductive Recommendation
  | proceed
  | reprice
  | walk
deriving DecidableEq, Repr

namespace Recommendation

def all : List Recommendation := [.proceed, .reprice, .walk]

def text : Recommendation → String
  | proceed => "proceed"
  | reprice => "reprice"
  | walk => "walk"

def model : Model Recommendation := literal all text (fun a => by cases a <;> decide +kernel)

end Recommendation

structure ICRiskItem where
  findingId : String
  workstream : String
  exposureUsdRange : Option (Int × Int)
  mitigation : Mitigation
  probability : Probability
deriving DecidableEq, Repr

namespace ICRiskItem

def fields : ModelFields ICRiskItem :=
  (required "finding_id" str <| required "workstream" str <|
    optional "exposure_usd_range" exposureOrNone none <|
    required "mitigation" Mitigation.model <| required "probability" Probability.model .nil).iso
    (fun (findingId, workstream, exposureUsdRange, mitigation, probability, _) =>
      ⟨findingId, workstream, exposureUsdRange, mitigation, probability⟩)
    (fun i => (i.findingId, i.workstream, i.exposureUsdRange, i.mitigation, i.probability, ()))
    (fun _ => rfl)

def model : Model ICRiskItem := fields.codec containers

end ICRiskItem

structure ICMemo where
  executiveSummary : String
  headlineTerms : String
  recommendation : Recommendation
  riskRegister : List ICRiskItem
deriving DecidableEq, Repr

namespace ICMemo

def fields : ModelFields ICMemo :=
  (optional "executive_summary" str "" <| optional "headline_terms" str "" <|
    optional "recommendation" Recommendation.model .proceed <|
    optional "risk_register" (listOf ICRiskItem.model) [] .nil).iso
    (fun (executiveSummary, headlineTerms, recommendation, riskRegister, _) =>
      ⟨executiveSummary, headlineTerms, recommendation, riskRegister⟩)
    (fun m => (m.executiveSummary, m.headlineTerms, m.recommendation, m.riskRegister, ()))
    (fun _ => rfl)

def model : Model ICMemo := fields.codec containers

end ICMemo

/-! ## The plan of the integration -/

inductive DeadlineTier
  | day30
  | day60
  | day100
  | day180
deriving DecidableEq, Repr

namespace DeadlineTier

def all : List DeadlineTier := [.day30, .day60, .day100, .day180]

def text : DeadlineTier → String
  | day30 => "day-30"
  | day60 => "day-60"
  | day100 => "day-100"
  | day180 => "day-180"

def model : Model DeadlineTier := literal all text (fun a => by cases a <;> decide +kernel)

end DeadlineTier

structure PMIItem where
  workstream : String
  action : String
  deadlineTier : DeadlineTier
  owner : String
  dependency : Option String
deriving DecidableEq, Repr

/-- `str | None` -/
def strOrNone : Model (Option String) := orNone str (fun _ => by rintro ⟨⟩)

namespace PMIItem

def fields : ModelFields PMIItem :=
  (required "workstream" str <| required "action" str <|
    required "deadline_tier" DeadlineTier.model <| required "owner" str <|
    optional "dependency" strOrNone none .nil).iso
    (fun (workstream, action, deadlineTier, owner, dependency, _) =>
      ⟨workstream, action, deadlineTier, owner, dependency⟩)
    (fun i => (i.workstream, i.action, i.deadlineTier, i.owner, i.dependency, ()))
    (fun _ => rfl)

def model : Model PMIItem := fields.codec containers

end PMIItem

structure PMIPlan where
  summary : String
  items : List PMIItem
deriving DecidableEq, Repr

namespace PMIPlan

def fields : ModelFields PMIPlan :=
  (optional "summary" str "" <| optional "items" (listOf PMIItem.model) [] .nil).iso
    (fun (summary, items, _) => ⟨summary, items⟩)
    (fun p => (p.summary, p.items, ()))
    (fun _ => rfl)

def model : Model PMIPlan := fields.codec containers

end PMIPlan

/-! ## The risk score -/

/-- The verdict of a risk score. -/
inductive Light
  | green
  | amber
  | red
deriving DecidableEq, Repr

namespace Light

def all : List Light := [.green, .amber, .red]

def text : Light → String
  | green => "green"
  | amber => "amber"
  | red => "red"

def model : Model Light := literal all text (fun a => by cases a <;> decide +kernel)

end Light

/-- `Field(ge=0, le=100)` -/
abbrev Percent := { n : Int // 0 ≤ n ∧ n ≤ 100 }

structure RiskDriver where
  dimension : String
  findingId : String
  severity : Severity
  oneLiner : String
deriving DecidableEq, Repr

namespace RiskDriver

def fields : ModelFields RiskDriver :=
  (required "dimension" str <| required "finding_id" str <|
    required "severity" Severity.literalModel <| required "one_liner" str .nil).iso
    (fun (dimension, findingId, severity, oneLiner, _) =>
      ⟨dimension, findingId, severity, oneLiner⟩)
    (fun d => (d.dimension, d.findingId, d.severity, d.oneLiner, ()))
    (fun _ => rfl)

def model : Model RiskDriver := fields.codec containers

end RiskDriver

structure RiskScore where
  overall : Percent
  verdict : Light
  dimensions : Dict String Int
  topRiskDrivers : List RiskDriver
  explanation : String
deriving DecidableEq

namespace RiskScore

def fields : ModelFields RiskScore :=
  (required "overall" (int.refine _ "Input should be between 0 and 100") <|
    required "verdict" Light.model <| optional "dimensions" (dictOf int) .empty <|
    optional "top_risk_drivers" (listOf RiskDriver.model) [] <|
    optional "explanation" str "" .nil).iso
    (fun (overall, verdict, dimensions, topRiskDrivers, explanation, _) =>
      ⟨overall, verdict, dimensions, topRiskDrivers, explanation⟩)
    (fun r => (r.overall, r.verdict, r.dimensions, r.topRiskDrivers, r.explanation, ()))
    (fun _ => rfl)

def model : Model RiskScore := fields.codec containers

end RiskScore

/-! ## Remediation -/

inductive Owner
  | vendor
  | buyer
  | both
deriving DecidableEq, Repr

namespace Owner

def all : List Owner := [.vendor, .buyer, .both]

def text : Owner → String
  | vendor => "vendor"
  | buyer => "buyer"
  | both => "both"

def model : Model Owner := literal all text (fun a => by cases a <;> decide +kernel)

end Owner

inductive Priority
  | p0
  | p1
  | p2
deriving DecidableEq, Repr

namespace Priority

def all : List Priority := [.p0, .p1, .p2]

def text : Priority → String
  | p0 => "P0"
  | p1 => "P1"
  | p2 => "P2"

def model : Model Priority := literal all text (fun a => by cases a <;> decide +kernel)

end Priority

structure RemediationItem where
  findingId : String
  action : String
  owner : Owner
  priority : Priority
  leverage : String
  estEffortDays : Option Int
deriving DecidableEq, Repr

namespace RemediationItem

def fields : ModelFields RemediationItem :=
  (required "finding_id" str <| required "action" str <| required "owner" Owner.model <|
    required "priority" Priority.model <| required "leverage" str <|
    optional "est_effort_days" intOrNone none .nil).iso
    (fun (findingId, action, owner, priority, leverage, estEffortDays, _) =>
      ⟨findingId, action, owner, priority, leverage, estEffortDays⟩)
    (fun i => (i.findingId, i.action, i.owner, i.priority, i.leverage, i.estEffortDays, ()))
    (fun _ => rfl)

def model : Model RemediationItem := fields.codec containers

end RemediationItem

structure RemediationPlan where
  items : List RemediationItem
  horizonDays : Int
  summary : String
deriving DecidableEq, Repr

namespace RemediationPlan

def fields : ModelFields RemediationPlan :=
  (optional "items" (listOf RemediationItem.model) [] <| optional "horizon_days" int 0 <|
    optional "summary" str "" .nil).iso
    (fun (items, horizonDays, summary, _) => ⟨items, horizonDays, summary⟩)
    (fun p => (p.items, p.horizonDays, p.summary, ()))
    (fun _ => rfl)

def model : Model RemediationPlan := fields.codec containers

end RemediationPlan

end orchestra.tprm.schemas
