-- The specialists of a diligence run (`agents/base.py`, `agents/specialists/legal.py`,
-- `agents/specialists/financial.py`): the call of a model with its retry, the agents that go
-- through their documents one by one, and the wrapper that makes a finding of an error.
import Orchestra.Lib.Decimal
import Orchestra.Tprm.Answers
import Orchestra.Tprm.State

open dicts texts decimals orchestra.tprm.schemas orchestra.tprm.state orchestra.tprm.answers

namespace orchestra.tprm.specialists

/-! ## What a specialist gets from outside -/

/-- What a call asks about: a document, or the findings of the agent so far. -/
inductive Question
  | document (doc body : String) (attachment : Option String)
  | earnings (findings : String)

/-- The messages of a call are made of this. `compliance` is for the prefix of the retry. -/
structure Request where
  agent : String
  subject : String
  question : Question
  compliance : Bool

structure Response where
  content : Option String
  safety : Bool

/-- `readUri` gives no text for an error that the agents catch. -/
structure Outside where
  reader : Reader
  complete : Request → Except Raised Response
  readUri : String → Except Raised (Option String)

/-! ## `BaseTPRMAgent` -/

/-- What stops an agent: `_SafetySuppressed`, or another error. -/
inductive Failure
  | suppressed
  | raised (error : Raised)

/-- An error of outside code, as one of the agent. -/
def lift {α : Type} (x : Except Raised α) : Except Failure α := x.mapError .raised

/-- A finding as an agent makes it. The id of a new one is random, and stands empty. -/
def newFinding (agent category : String) (severity : Severity) (summary : String) : Finding :=
  ⟨agent, category, severity, [], summary, .empty, "", none, none, none⟩

/-- `_call_llm`: a second call when the first one was stopped for safety without a text. -/
def callLlm (W : Outside) (request : Request) : Except Failure String :=
  match W.complete request with
  | .error e => .error (.raised e)
  | .ok response =>
    if response.content.getD "" ≠ "" ∨ response.safety = false then
      .ok (response.content.getD "")
    else
      match W.complete { request with compliance := true } with
      | .error e => .error (.raised e)
      | .ok retry =>
        if retry.content.getD "" ≠ "" then .ok (retry.content.getD "") else .error .suppressed

def suppressedFinding (name : String) : Finding :=
  newFinding name "filter-suppressed" .medium (name ++ " response was suppressed by Gemini " ++
    "safety filters even after compliance-context retry.")

def errorFinding (name : String) (e : Raised) : Finding :=
  { newFinding name "agent-error" .critical (e.type ++ ": " ++ e.message) with
    raw := Dict.ofList [("exception_type", .str e.type)] }

/-- `run`, on what `_emit_findings` comes to. -/
def run (name : String) (emitted : Except Failure (List Finding)) :
    Except Failure (List Finding) :=
  match emitted with
  | .error .suppressed => .ok [suppressedFinding name]
  | emitted => emitted

/-- `safe_specialist`, on what `run` comes to. -/
def safeSpecialist (name : String) (ran : Except Failure (List Finding)) : List Finding :=
  match ran with
  | .ok findings => findings
  | .error .suppressed => [suppressedFinding name]
  | .error (.raised e) => [errorFinding name e]

/-! ## The items of an answer -/

/-- How an agent reads an item: where the category stands, what goes into the snippet of the
citation, and which keys are kept in `raw`. -/
structure ItemForm where
  agent : String
  categoryKey : String
  defaultCategory : String
  snippetKey : Option String
  keeps : String → Bool

/-- `str` in a model of pydantic. -/
def strField : Json → Except Raised String
  | .str s => .ok s
  | _ => .error ⟨"ValidationError", "Input should be a valid string", false⟩

/-- `v.get(..)` on what is no dict. -/
def noGet (v : Json) : Raised :=
  ⟨"AttributeError", "'" ++ v.typeName ++ "' object has no attribute 'get'", false⟩

/-- `Citation(file_id=.., page=.., snippet=..)` -/
def citationOf (R : Reader) (doc : String) (page snippet : Json) : Except Raised Citation := do
  let page ← R.intOrNone page
  let snippet ← strField snippet
  .ok ⟨doc, none, page, none, snippet⟩

/-- The finding of an item. -/
def findingOf (R : Reader) (form : ItemForm) (doc : String) : Json → Except Raised Finding
  | .dict members => do
    let severity := (Json.get? members "severity").getD (.str "low")
    let citation ← citationOf R doc ((Json.get? members "citation_page").getD .null)
      ((form.snippetKey.bind (Json.get? members)).getD (.str ""))
    let category ← strField ((Json.get? members form.categoryKey).getD
      (.str form.defaultCategory))
    let summary ← strField ((Json.get? members "summary").getD (.str ""))
    .ok { newFinding form.agent category (Severity.coerce severity.toValue) summary with
      evidence := [citation]
      raw := Dict.ofList (Json.toMembers (members.filter (fun e => form.keeps e.1))) }
  | v => .error (noGet v)

def findingsOf (R : Reader) (form : ItemForm) (doc : String) (items : List Json) :
    Except Raised (List Finding) := items.mapM (findingOf R form doc)

/-! ## The loop over the documents -/

/-- What an agent has found: for each document, and apart from the documents. -/
structure Report where
  perDocument : List (List Finding)
  others : List Finding
deriving DecidableEq

def Report.findings (r : Report) : List Finding := r.perDocument.flatten ++ r.others

/-- `state["routing"].get(name, [])` -/
def docsFor (name : String) (state : TPRMState) : List String := (state.routing.get? name).getD []

/-- The URI of a document, if it has one. -/
def uriOf (state : TPRMState) (doc : String) : Option String :=
  (state.fileUris.get? doc).filter (· ≠ "")

namespace LegalAgent

def name : String := "LegalAgent"

def form : ItemForm := ⟨name, "category", "unknown", some "clause_id", fun _ => true⟩

/-- What is asked about a document. -/
def question (W : Outside) (doc uri : String) : Except Failure Question :=
  if startsWith uri "https://" then .ok (.document doc "" (some uri))
  else do
    let content ← lift (W.readUri uri)
    .ok (.document doc (content.getD "") none)

def parseError (doc text : String) : Finding :=
  { newFinding name "parse-error" .high
      ("LegalAgent: LLM returned non-JSON for " ++ doc ++ ": " ++ cut text 120) with
    evidence := [⟨doc, none, none, none, ""⟩] }

/-- The findings in an answer. -/
def readAnswer (R : Reader) (doc text : String) : Except Failure (List Finding) :=
  if strip text = "" then .ok []
  else
    match R.loads (stripJsonFences R text) with
    | .error (.decode _) => .ok [parseError doc text]
    | .error (.other e) => .error (.raised e)
    | .ok v => lift (do findingsOf R form doc (← v.iterate))

/-- The body of the loop over the documents. -/
def review (W : Outside) (state : TPRMState) (doc : String) : Except Failure (List Finding) :=
  match uriOf state doc with
  | none => .ok []
  | some uri => do
    let asked ← question W doc uri
    let text ← callLlm W ⟨name, state.subjectName, asked, false⟩
    readAnswer W.reader doc text

/-- `_emit_findings` -/
def emitReport (W : Outside) (state : TPRMState) : Except Failure Report := do
  let each ← (docsFor name state).mapM (review W state)
  .ok ⟨each, []⟩

end LegalAgent

namespace FinancialAgent

def name : String := "FinancialAgent"

def form : ItemForm :=
  ⟨name, "metric", "financial-risk", none,
    fun key => key ∉ ["severity", "summary", "citation_page"]⟩

/-- What is asked about a document, unless it is empty. -/
def question (W : Outside) (doc uri : String) : Except Failure (Option Question) :=
  if startsWith uri "https://" then .ok (some (.document doc "" (some uri)))
  else do
    let content ← lift (W.readUri uri)
    if content.getD "" = "" then .ok none else .ok (some (.document doc (content.getD "") none))

def parseError (summary : String) : Finding := newFinding name "parse-error" .critical summary

/-- The findings in an answer. -/
def readAnswer (R : Reader) (doc text : String) : Except Failure (List Finding) :=
  if strip text = "" then .ok []
  else
    match R.loads (stripJsonFences R text) with
    | .error (.decode _) =>
      .ok [parseError ("FinancialAgent: LLM returned non-JSON response for " ++ doc ++ ": " ++
        cut text 120)]
    | .error (.other e) => .error (.raised e)
    | .ok (.list items) => lift (findingsOf R form doc items)
    | .ok v =>
      .ok [parseError ("FinancialAgent: expected JSON array for " ++ doc ++ ", got " ++
        v.typeName)]

/-- The body of the loop over the documents. -/
def review (W : Outside) (state : TPRMState) (doc : String) : Except Failure (List Finding) :=
  match uriOf state doc with
  | none => .ok []
  | some uri => do
    match ← question W doc uri with
    | none => .ok []
    | some asked =>
      let text ← callLlm W ⟨name, state.subjectName, asked, false⟩
      readAnswer W.reader doc text

/-! ### The quality of earnings -/

/-- The numbers from here on are no floats any more. -/
def floatLimit : Nat := 2 ^ 1024 - 2 ^ 970

/-- A float of this size, or an `OverflowError`. -/
def asFloat (message : String) (x : Rat) : Except Raised Rat :=
  if |x| < floatLimit then .ok x else .error ⟨"OverflowError", message, false⟩

/-- `int(abs(n) * multiple)` -/
def priced (n : Int) (multiple : Rat) : Except Raised Int := do
  let x ← asFloat "int too large to convert to float" |n|
  let y ← asFloat "cannot convert float infinity to integer" (x * multiple)
  .ok (truncate y)

/-- `int(members.get(key) or 0)` -/
def number (R : Reader) (members : List (String × Json)) (key : String) : Except Raised Int :=
  match Json.get? members key with
  | some v => if v.truthy then v.toInt R else .ok 0
  | none => .ok 0

def isSummary (members : List (String × Json)) : Bool :=
  match Json.get? members "adjustment" with
  | some (.str s) => s = "qoe_summary"
  | _ => false

/-- The first row with the sums. -/
def summaryRow : List Json → Option (List (String × Json))
  | [] => none
  | .dict members :: rest => if isSummary members then some members else summaryRow rest
  | _ :: rest => summaryRow rest

/-- What the sums come to. -/
structure Sums where
  reported : Int
  adjusted : Int
  delta : Int
  multiple : Rat
  chip : Int

/-- The sums of a summary row, in the scope of a deal. -/
def sumsOf (R : Reader) (scope : Option MAScope) (row : Option (List (String × Json))) :
    Except Raised Sums := do
  let (reported, adjusted, delta) ← match row with
    | none => .ok (0, 0, 0)
    | some members => do
      let reported ← number R members "reported_ebitda_usd"
      let adjusted ← number R members "qoe_adjusted_ebitda_usd"
      let delta ← number R members "delta_usd"
      .ok (reported, adjusted, delta)
  let value := (scope.bind (·.enterpriseValueUsd)).getD 0
  let multiple ←
    if value ≠ 0 ∧ 0 < adjusted then do
      let ratio ← asFloat "integer division result too large for a float" (value / adjusted : Rat)
      .ok (min 20 ratio)
    else .ok 8
  let chip ← priced delta multiple
  .ok ⟨reported, adjusted, delta, multiple, chip⟩

def decisionOf (priced : Bool) : IcDecision :=
  if priced then .priceAdjustment else .postCloseMonitoring

/-- The finding of the summary row. -/
def sumFinding (sums : Sums) (members : List (String × Json)) : Finding :=
  { newFinding name "qoe-ebitda-normalization" (if 0 < sums.chip then .high else .low)
      ("QoE normalization: reported EBITDA $" ++ grouped sums.reported ++ " → adjusted $" ++
        grouped sums.adjusted ++ " (delta $" ++ grouped sums.delta ++ "); price chip @ " ++
        fixed1 sums.multiple ++ "x = $" ++ grouped sums.chip) with
    workstream := some .financial
    icDecision := some (decisionOf (0 < sums.chip))
    exposureUsdRange := if 0 < sums.chip then some (0, sums.chip) else none
    raw := Dict.ofList (Json.toMembers members) }

/-- The finding of a row with an adjustment. -/
def adjustment (R : Reader) (sums : Sums) (members : List (String × Json)) :
    Except Raised Finding := do
  let kind := ((Json.get? members "adjustment").getD (.str "qoe-adjustment")).text R
  let delta ← number R members "delta_usd"
  let exposure ← if delta ≠ 0 then (priced delta sums.multiple).map some else .ok none
  let citation ← citationOf R "qoe-pass" ((Json.get? members "citation_page").getD .null) (.str "")
  let summary ← strField ((Json.get? members "rationale").getD (.str ("QoE adjustment: " ++ kind)))
  let category := String.ofList (("qoe-" ++ kind).toList.map (fun c => if c = '_' then '-' else c))
  .ok { newFinding name category (if delta ≠ 0 then .medium else .low) summary with
    workstream := some .financial
    icDecision := some (decisionOf (delta ≠ 0))
    exposureUsdRange := exposure.map (fun top => (0, top))
    evidence := [citation]
    raw := Dict.ofList (Json.toMembers members) }

def rowFinding (R : Reader) (sums : Sums) : Json → Except Raised Finding
  | .dict members =>
    if isSummary members then .ok (sumFinding sums members) else adjustment R sums members
  | v => .error (noGet v)

/-- The rows of an answer: none when it is no JSON, or no list. -/
def rowsOf (R : Reader) (text : String) : Except Raised (List Json) :=
  match R.loads (stripJsonFences R text) with
  | .ok (.list rows) => .ok rows
  | .ok _ => .ok []
  | .error (.decode _) => .ok []
  | .error (.other e) => .error e

/-- The pass over the earnings, after these findings. -/
def earnings (W : Outside) (state : TPRMState) (found : List Finding) :
    Except Failure (List Finding) := do
  let json ← lift (W.reader.dumpFindings found)
  let text ← callLlm W ⟨name, state.subjectName, .earnings json, false⟩
  if strip text = "" then .ok []
  else lift (do
    let rows ← rowsOf W.reader text
    let sums ← sumsOf W.reader state.maScope (summaryRow rows)
    rows.mapM (rowFinding W.reader sums))

/-- `_emit_findings` -/
def emitReport (W : Outside) (state : TPRMState) : Except Failure Report := do
  let each ← (docsFor name state).mapM (review W state)
  if state.mode = .ma ∧ each.flatten ≠ [] then
    let later ← earnings W state each.flatten
    .ok ⟨each, later⟩
  else .ok ⟨each, []⟩

end FinancialAgent

/-! ## The wrapped specialist -/

/-- `safe_specialist` around an agent with this name. -/
def wrapped (name : String) (emitted : Except Failure Report) : List Finding :=
  safeSpecialist name (run name (emitted.map Report.findings))

end orchestra.tprm.specialists
