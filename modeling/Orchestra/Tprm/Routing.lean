-- The documents of a packet and who reviews them (`orchestra_tprm/graph.py`, `agents/intake.py`):
-- the manifest with the URIs, and the router that gives every specialist its documents.
import Orchestra.Tprm.Answers
import Orchestra.Tprm.State

open dicts texts orchestra.tprm.schemas orchestra.tprm.state orchestra.tprm.answers

namespace orchestra.tprm.routing

/-! ## The specialists -/

inductive Specialist
  | legal
  | security
  | external
  | code
  | financial
  | saasMetrics
  | esg
deriving DecidableEq, Repr

namespace Specialist

/-- The specialists in the order of `_build_specialists`. -/
def all : List Specialist := [.legal, .security, .external, .code, .financial, .saasMetrics, .esg]

/-- The key of the mode config, which is the id of the node. -/
def key : Specialist → String
  | legal => "legal"
  | security => "security"
  | external => "external"
  | code => "code"
  | financial => "financial"
  | saasMetrics => "saas_metrics"
  | esg => "esg"

/-- The `name` of the agent, which is its key in the routing. -/
def name : Specialist → String
  | legal => "LegalAgent"
  | security => "SecurityAgent"
  | external => "ExternalAgent"
  | code => "CodeAgent"
  | financial => "FinancialAgent"
  | saasMetrics => "SaaSMetricsAgent"
  | esg => "ESGAgent"

end Specialist

/-! ## Intake -/

/-- The letters after the last `c`. -/
def lastPart (c : Char) (s : List Char) : List Char := (s.reverse.takeWhile (· ≠ c)).reverse

/-- `path.split("/")[-1].split("\\")[-1]` -/
def fileName (path : String) : String :=
  String.ofList (lastPart '\\' (lastPart '/' path.toList))

/-- A document of `manifest.yaml`: its path under the packet, as it is and resolved. -/
structure PacketDoc where
  path : String
  resolved : String
  kind : Option String
deriving DecidableEq, Repr

/-- A file of a Drive folder. A field that is missing is empty. -/
structure DriveFile where
  name : String
  id : String
  kind : String
deriving DecidableEq, Repr

/-- What a run finds: a local packet, a Drive folder whose files it copies to local URIs, or
neither. -/
inductive Packet
  | folder (docs : List PacketDoc) (subjectName : Option String)
  | drive (files : List DriveFile) (localUri : String → String)
  | absent

/-- `_infer_kind` -/
def inferKind (filename : String) : String :=
  let lower := lower filename
  if contains lower "msa" || contains lower "contract" || contains lower "agreement" then
    "contract"
  else if contains lower "soc2" || contains lower "iso" then "security_attestation"
  else if contains lower "10-k" || contains lower "10k" || contains lower "annual" then
    "annual_report"
  else if contains lower "financial" then "financial_filing"
  else "unknown"

def PacketDoc.entry (doc : PacketDoc) : ManifestEntry :=
  ⟨doc.path, doc.kind.getD "unknown", "local://" ++ doc.resolved⟩

def DriveFile.entry (localUri : String → String) (file : DriveFile) : ManifestEntry :=
  let name := if file.name ≠ "" then file.name else file.id
  ⟨name, if file.kind ≠ "" then file.kind else inferKind name, localUri name⟩

namespace Packet

def manifest : Packet → List ManifestEntry
  | folder docs _ => docs.map PacketDoc.entry
  | drive files localUri => files.map (DriveFile.entry localUri)
  | absent => []

/-- The first keys of `file_uris`: a local packet goes by kind, a folder by name. -/
def shorthand (packet : Packet) : List (String × String) :=
  match packet with
  | folder .. => packet.manifest.map (fun e => (e.kind, e.fileUri))
  | drive .. => packet.manifest.map (fun e => (e.path, e.fileUri))
  | absent => []

/-- The keys by file name, which come last. -/
def byFileName (packet : Packet) : List (String × String) :=
  packet.manifest.map (fun e => (fileName e.path, e.fileUri))

def fileUris (packet : Packet) : Dict String String :=
  (Dict.ofList packet.shorthand).setAll packet.byFileName

end Packet

/-- `_run_intake` -/
def runIntake (packet : Packet) (state : PyDict) : Except Raised (List Write) := do
  let subject ← readField str state "subject_name" ""
  match packet with
  | .folder _ subjectName =>
    .ok [.packetManifest packet.manifest, .fileUris packet.fileUris,
      .subjectName (if subject ≠ "" then subject else subjectName.getD "")]
  | .drive .. =>
    .ok [.packetManifest packet.manifest, .fileUris packet.fileUris, .subjectName subject]
  | .absent => .ok [.packetManifest [], .fileUris .empty]

/-! ## Classification without a model -/

/-- `_KIND_TO_AGENT_NAMES.get(kind, ["LegalAgent", "SecurityAgent"])` -/
def agentNames (kind : String) : List String :=
  let table : List (String × List String) := [
    ("contract", ["LegalAgent"]),
    ("security_attestation", ["SecurityAgent"]),
    ("financial_statement", ["FinancialAgent", "LegalAgent", "SaaSMetricsAgent"]),
    ("financial_filing", ["FinancialAgent", "LegalAgent", "SaaSMetricsAgent"]),
    ("source_code", ["CodeAgent"]),
    ("investor_deck", ["FinancialAgent", "SaaSMetricsAgent"]),
    ("annual_report",
      ["LegalAgent", "FinancialAgent", "SecurityAgent", "SaaSMetricsAgent", "ESGAgent"]),
    ("sustainability_report", ["ESGAgent"]),
    ("code_of_conduct", ["ESGAgent"]),
    ("diversity_report", ["ESGAgent"]),
    ("governance_disclosure", ["ESGAgent"]),
    ("unknown", ["LegalAgent", "SecurityAgent"])]
  (table.lookup kind).getD ["LegalAgent", "SecurityAgent"]

/-- `{a: [] for a in active}` -/
def emptyRouting (active : List String) : Routing := Dict.ofList (active.map (fun a => (a, [])))

/-- `if name in routing: routing[name].append(doc)` -/
def assign (routing : Routing) (name doc : String) : Routing :=
  match routing.get? name with
  | some docs => routing.set name (docs ++ [doc])
  | none => routing

/-- The pairs of an agent and a document, in the order in which they are assigned. -/
def assignAll (routing : Routing) (pairs : List (String × String)) : Routing :=
  pairs.foldl (fun routing pair => assign routing pair.1 pair.2) routing

/-- The pairs of `_classify_no_llm`. -/
def pairsByKind (manifest : List ManifestEntry) : List (String × String) :=
  manifest.flatMap (fun e => (agentNames e.kind).map (fun name => (name, fileName e.path)))

/-- `_classify_no_llm` -/
def classifyNoLlm (manifest : List ManifestEntry) (active : List String) : Routing :=
  assignAll (emptyRouting active) (pairsByKind manifest)

/-! ## The router -/

/-- `re.search(r"\[.*\]", text, re.DOTALL)` -/
def bracketed (text : String) : Option String :=
  match text.toList.dropWhile (· ≠ '[') with
  | [] => none
  | c :: rest =>
    match (rest.reverse.dropWhile (· ≠ ']')).reverse with
    | [] => none
    | inner => some (String.ofList (c :: inner))

def members? : Json → Option (List (String × Json))
  | .dict members => some members
  | _ => none

/-- The items of an answer: the dicts of the list that it holds, if it holds one. -/
def routedItems (R : Reader) (content : Option String) :
    Except Raised (List (List (String × Json))) :=
  match bracketed (strip (content.getD "")) with
  | none => .ok []
  | some found =>
    match R.loads found with
    | .ok (.list items) => .ok (items.filterMap members?)
    | .ok _ => .ok []
    | .error (.decode _) => .ok []
    | .error (.other e) => .error e

/-- The names in a list of specialists. A value that cannot be a key is an error, and one that
is no string is no name of an agent. -/
def namesIn : List Json → Except Raised (List String)
  | [] => .ok []
  | .str name :: rest => (namesIn rest).map (name :: ·)
  | .list _ :: _ => .error (typeError "unhashable type: 'list'")
  | .dict _ :: _ => .error (typeError "unhashable type: 'dict'")
  | _ :: rest => namesIn rest

/-- The pairs of one item: its document for each of its specialists. -/
def pairsOf (R : Reader) (item : List (String × Json)) :
    Except Raised (List (String × String)) := do
  let doc := ((Json.get? item "doc").getD (.str "")).text R
  let specs := (Json.get? item "specialists").getD (.list [])
  let names ← (if specs.truthy then specs else .list []).iterate >>= namesIn
  .ok (names.map (fun name => (name, doc)))

def pairsOfAll (R : Reader) : List (List (String × Json)) → Except Raised (List (String × String))
  | [] => .ok []
  | item :: rest => do
    let pairs ← pairsOf R item
    let later ← pairsOfAll R rest
    .ok (pairs ++ later)

/-- The first document for every agent that has none. -/
def backstop (manifest : List ManifestEntry) (routing : Routing) : Routing :=
  match manifest with
  | [] => routing
  | first :: _ =>
    routing.mapValues (fun _ docs => if docs.isEmpty then [fileName first.path] else docs)

/-- The routing of `_DocRouter.run`. Without a provider it returns before the backstop. -/
def docRouter (R : Reader) (active : List String) (answer : Option (Option String))
    (manifest : List ManifestEntry) : Except Raised Routing :=
  match answer with
  | none => .ok (classifyNoLlm manifest active)
  | some content => do
    let items ← routedItems R content
    let routing ← if items.isEmpty then .ok (classifyNoLlm manifest active) else
      (pairsOfAll R items).map (assignAll (emptyRouting active))
    .ok (backstop manifest routing)

/-- `_DocRouter.run` -/
def runRouter (R : Reader) (active : List String) (answer : Option (Option String))
    (state : PyDict) : Except Raised (List Write) := do
  let manifest ← readField (listOf ManifestEntry.model) state "packet_manifest" []
  let routing ← docRouter R active answer manifest
  .ok [.routing routing]

end orchestra.tprm.routing
