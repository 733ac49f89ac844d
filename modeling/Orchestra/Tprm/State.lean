-- The state of a diligence run: `TPRMState` as a state class of the engine, what the agents
-- write to it, and that a state takes every update they make.
import Orchestra.Merging
import Orchestra.Tprm.Schemas

open dicts records orchestra.state orchestra.compiled orchestra.merging orchestra.tprm.schemas

namespace orchestra.tprm.state

/-! ## State classes -/

/-- The state class with these fields. -/
def ofFields {α : Type} (name : String) (F : ModelFields α) (reducers : Dict String Reducer)
    (h : loopCountersKey ∉ F.names) : Schema where
  name
  fields := F.names
  reducers
  validate d := (F.parse d.entries).map F.dict
  keys_validate d s hs := by
    rcases hd : F.parse d.entries with e | a
    · rw [hd] at hs
      cases hs
    · rw [hd] at hs
      cases hs
      exact F.keys_dict a
  validate_dump d s hs := by
    rcases hd : F.parse d.entries with e | a
    · rw [hd] at hs
      cases hs
    · rw [hd] at hs
      cases hs
      rw [F.parse_dict]
      rfl
  validate_extra d k v hk := by rw [F.parse_set d v hk]
  no_counters := h

/-! ## The state -/

inductive Mode
  | vendor
  | ma
deriving DecidableEq, Repr

namespace Mode

def all : List Mode := [.vendor, .ma]

def text : Mode → String
  | vendor => "vendor"
  | ma => "ma"

def model : Model Mode := literal all text (fun a => by cases a <;> decide +kernel)

end Mode

/-- An entry of the manifest, as intake makes it. -/
structure ManifestEntry where
  path : String
  kind : String
  fileUri : String
deriving DecidableEq, Repr

namespace ManifestEntry

def fields : ModelFields ManifestEntry :=
  (required "path" str <| required "kind" str <| required "file_uri" str .nil).iso
    (fun (path, kind, fileUri, _) => ⟨path, kind, fileUri⟩)
    (fun e => (e.path, e.kind, e.fileUri, ()))
    (fun _ => rfl)

def model : Model ManifestEntry := fields.codec containers

end ManifestEntry

/-- The routing: the names of the documents of each agent. -/
abbrev Routing := Dict String (List String)

structure TPRMState where
  mode : Mode
  subjectName : String
  packetPath : String
  githubUrl : String
  fileUris : Dict String String
  packetManifest : List ManifestEntry
  routing : Routing
  findings : List Finding
  riskScore : Int
  policyVerdict : String
  verdictDocId : String
  verdictLocalPath : String
  maScope : Option MAScope
  icMemo : Option ICMemo
  pmiPlan : Option PMIPlan
  riskAssessment : Option RiskScore
  remediationPlan : Option RemediationPlan
deriving DecidableEq

/-- A record is no `None`. -/
def recordOrNone {α : Type} (F : ModelFields α) : Model (Option α) :=
  orNone (F.codec containers) (fun _ => by rintro ⟨⟩)

namespace TPRMState

def fields : ModelFields TPRMState :=
  (optional "mode" Mode.model .vendor <| optional "subject_name" str "" <|
    optional "packet_path" str "" <| optional "github_url" str "" <|
    optional "file_uris" (dictOf str) .empty <|
    optional "packet_manifest" (listOf ManifestEntry.model) [] <|
    optional "routing" (dictOf (listOf str)) .empty <|
    optional "findings" (listOf Finding.model) [] <| optional "risk_score" wholeFloat 0 <|
    optional "policy_verdict" str "" <| optional "verdict_doc_id" str "" <|
    optional "verdict_local_path" str "" <|
    optional "ma_scope" (recordOrNone MAScope.fields) none <|
    optional "ic_memo" (recordOrNone ICMemo.fields) none <|
    optional "pmi_plan" (recordOrNone PMIPlan.fields) none <|
    optional "risk_assessment" (recordOrNone RiskScore.fields) none <|
    optional "remediation_plan" (recordOrNone RemediationPlan.fields) none .nil).iso
    (fun (mode, subjectName, packetPath, githubUrl, fileUris, packetManifest, routing, findings,
        riskScore, policyVerdict, verdictDocId, verdictLocalPath, maScope, icMemo, pmiPlan,
        riskAssessment, remediationPlan, _) =>
      ⟨mode, subjectName, packetPath, githubUrl, fileUris, packetManifest, routing, findings,
        riskScore, policyVerdict, verdictDocId, verdictLocalPath, maScope, icMemo, pmiPlan,
        riskAssessment, remediationPlan⟩)
    (fun s => (s.mode, s.subjectName, s.packetPath, s.githubUrl, s.fileUris, s.packetManifest,
      s.routing, s.findings, s.riskScore, s.policyVerdict, s.verdictDocId, s.verdictLocalPath,
      s.maScope, s.icMemo, s.pmiPlan, s.riskAssessment, s.remediationPlan, ()))
    (fun _ => rfl)

def reducers : Dict String Reducer :=
  Dict.ofList [("file_uris", mergeDict), ("packet_manifest", mergeList), ("routing", mergeDict),
    ("findings", mergeList)]

def schema : Schema := ofFields "TPRMState" fields reducers (by decide +kernel)

/-- `model_dump()` -/
def dump (s : TPRMState) : PyDict := fields.dict s

/-- The state of a request, with the defaults for what the run fills in. -/
def start (mode : Mode) (subjectName packetPath : String) (maScope : Option MAScope) :
    TPRMState where
  mode
  subjectName
  packetPath
  githubUrl := ""
  fileUris := .empty
  packetManifest := []
  routing := .empty
  findings := []
  riskScore := 0
  policyVerdict := ""
  verdictDocId := ""
  verdictLocalPath := ""
  maScope
  icMemo := none
  pmiPlan := none
  riskAssessment := none
  remediationPlan := none

end TPRMState

/-! ## What the agents write -/

/-- A field that some agent writes, with its value. A model stands as its dump: the state
takes both alike. -/
inductive Write
  | githubUrl (url : String)
  | packetManifest (manifest : List ManifestEntry)
  | fileUris (uris : Dict String String)
  | subjectName (name : String)
  | routing (docs : Routing)
  | findings (found : List Finding)
  | riskAssessment (score : RiskScore)
  | riskScore (score : Int)
  | policyVerdict (verdict : String)
  | icMemo (memo : ICMemo)
  | remediationPlan (plan : RemediationPlan)
  | verdictDocId (id : String)
  | verdictLocalPath (path : String)
  | pmiPlan (plan : PMIPlan)

/-- The entry of an update. -/
def Write.entry : Write → String × Value
  | .githubUrl url => ("github_url", str.dump url)
  | .packetManifest manifest => ("packet_manifest", (listOf ManifestEntry.model).dump manifest)
  | .fileUris uris => ("file_uris", (dictOf str).dump uris)
  | .subjectName name => ("subject_name", str.dump name)
  | .routing docs => ("routing", (dictOf (listOf str)).dump docs)
  | .findings found => ("findings", (listOf Finding.model).dump found)
  | .riskAssessment score => ("risk_assessment", RiskScore.model.dump score)
  | .riskScore score => ("risk_score", wholeFloat.dump score)
  | .policyVerdict verdict => ("policy_verdict", str.dump verdict)
  | .icMemo memo => ("ic_memo", ICMemo.model.dump memo)
  | .remediationPlan plan => ("remediation_plan", RemediationPlan.model.dump plan)
  | .verdictDocId id => ("verdict_doc_id", str.dump id)
  | .verdictLocalPath path => ("verdict_local_path", str.dump path)
  | .pmiPlan plan => ("pmi_plan", PMIPlan.model.dump plan)

def updateOf (writes : List Write) : PyDict := Dict.ofList (writes.map Write.entry)

namespace TPRMState

def write (s : TPRMState) : Write → TPRMState
  | .githubUrl url => { s with githubUrl := url }
  | .packetManifest manifest => { s with packetManifest := s.packetManifest ++ manifest }
  | .fileUris uris => { s with fileUris := s.fileUris.update uris }
  | .subjectName name => { s with subjectName := name }
  | .routing docs => { s with routing := s.routing.update docs }
  | .findings found => { s with findings := s.findings ++ found }
  | .riskAssessment score => { s with riskAssessment := some score }
  | .riskScore score => { s with riskScore := score }
  | .policyVerdict verdict => { s with policyVerdict := verdict }
  | .icMemo memo => { s with icMemo := some memo }
  | .remediationPlan plan => { s with remediationPlan := some plan }
  | .verdictDocId id => { s with verdictDocId := id }
  | .verdictLocalPath path => { s with verdictLocalPath := path }
  | .pmiPlan plan => { s with pmiPlan := some plan }

def writeAll (s : TPRMState) (writes : List Write) : TPRMState := writes.foldl write s

end TPRMState

/-! ## Reads -/

/-- `state.get(key, absent)`, coerced. -/
def readField {α : Type} (model : Model α) (state : PyDict) (key : String) (absent : α) :
    Except Raised α :=
  match state.get? key with
  | none => .ok absent
  | some v => (model.parse v).mapError (fun e => ⟨"ValidationError", e, false⟩)

theorem readField_of_some {α : Type} {model : Model α} {state : PyDict} {key : String} {a : α}
    (h : state.get? key = some (model.dump a)) (absent : α) :
    readField model state key absent = .ok a := by
  unfold readField
  rw [h]
  simp only [model.parse_dump]
  rfl

/-- `[Finding(**f) for f in state.get("findings", [])]` -/
def coerceFindings (state : PyDict) : Except Raised (List Finding) :=
  readField (listOf Finding.model) state "findings" []

namespace TPRMState

variable (s : TPRMState)

@[simp] theorem coerceFindings_dump : coerceFindings s.dump = .ok s.findings :=
  readField_of_some rfl _

@[simp] theorem read_mode (absent : Mode) :
    readField Mode.model s.dump "mode" absent = .ok s.mode :=
  readField_of_some rfl _

@[simp] theorem read_subject (absent : String) :
    readField str s.dump "subject_name" absent = .ok s.subjectName :=
  readField_of_some rfl _

@[simp] theorem read_manifest :
    readField (listOf ManifestEntry.model) s.dump "packet_manifest" [] = .ok s.packetManifest :=
  readField_of_some rfl _

@[simp] theorem read_score : readField wholeFloat s.dump "risk_score" 0 = .ok s.riskScore :=
  readField_of_some rfl _

@[simp] theorem read_verdict : readField str s.dump "policy_verdict" "" = .ok s.policyVerdict :=
  readField_of_some rfl _

@[simp] theorem read_scope :
    readField (recordOrNone MAScope.fields) s.dump "ma_scope" none = .ok s.maScope :=
  readField_of_some rfl _

end TPRMState

/-! ## Updates -/

def Write.key (w : Write) : String := w.entry.1

theorem entries_updateOf {ws : List Write} (hnodup : (ws.map Write.key).Nodup) :
    (updateOf ws).entries = ws.map Write.entry := by
  have hkeys : ((ws.map Write.entry).map Prod.fst).Nodup := by
    rw [List.map_map]
    exact hnodup
  exact congrArg Dict.entries (Dict.ofList_entries ⟨ws.map Write.entry, hkeys⟩)

namespace TPRMState

theorem listOf_append {α : Type} (model : Model α) (xs ys : List α) :
    plus ((listOf model).dump xs) ((listOf model).dump ys) =
      .ok ((listOf model).dump (xs ++ ys)) := by
  show Except.ok (Value.list (xs.map model.dump ++ ys.map model.dump)) = _
  rw [← List.map_append]
  rfl

theorem dictOf_update {α : Type} (model : Model α) (d e : Dict String α) :
    mergeDict.reduce ((dictOf model).dump d) ((dictOf model).dump e) =
      .ok ((dictOf model).dump (d.update e)) := by
  show Except.ok (Value.ofDict ((Dict.ofList (Containers.dumpDict model d).entries).setAll
    (Containers.dumpDict model e).entries)) = _
  rw [Dict.ofList_entries, Containers.dumpDict_update]
  rfl

/-- A write finds its field, and leaves the state with the new value in it. -/
theorem written_write (s : TPRMState) (w : Write) : ∃ old v, s.dump.get? w.key = some old ∧
    written schema w.key old w.entry.2 = some v ∧ s.dump.set w.key v = (s.write w).dump := by
  cases w with
  | packetManifest manifest =>
    refine ⟨_, _, rfl, congrArg Except.toOption (listOf_append ..), rfl⟩
  | findings found =>
    refine ⟨_, _, rfl, congrArg Except.toOption (listOf_append ..), rfl⟩
  | fileUris uris =>
    refine ⟨_, _, rfl, congrArg Except.toOption (dictOf_update ..), rfl⟩
  | routing docs =>
    refine ⟨_, _, rfl, congrArg Except.toOption (dictOf_update ..), rfl⟩
  | _ => exact ⟨_, _, rfl, rfl, rfl⟩

theorem get?_write (s : TPRMState) (w : Write) {k : String} (hk : w.key ≠ k) :
    (s.write w).dump.get? k = s.dump.get? k := by
  obtain ⟨old, v, -, -, hset⟩ := written_write s w
  rw [← hset, Dict.get?_set_ne _ _ hk]

/-- The loop over an update, from a state `s'` on that has the fields to come as they were. -/
theorem updateFields_writes (s s' : TPRMState) {ws : List Write} (hnodup : (ws.map Write.key).Nodup)
    (hsame : ∀ w ∈ ws, s'.dump.get? w.key = s.dump.get? w.key) :
    updateFields schema s.dump (ws.map Write.entry) s'.dump = .ok (s'.writeAll ws).dump := by
  induction ws generalizing s' with
  | nil => rfl
  | cons w rest ih =>
    rw [List.map_cons, List.nodup_cons] at hnodup
    obtain ⟨old, v, hold, hwritten, hset⟩ := written_write s' w
    have hlater : ∀ u ∈ rest, (s'.write w).dump.get? u.key = s.dump.get? u.key := by
      intro u hu
      have hne : w.key ≠ u.key := fun heq => hnodup.1 (heq ▸ List.mem_map_of_mem hu)
      rw [get?_write s' w hne]
      exact hsame u (List.mem_cons_of_mem _ hu)
    have hrest := ih (s'.write w) hnodup.2 hlater
    rw [← hset] at hrest
    rw [hsame w List.mem_cons_self] at hold
    unfold written at hwritten
    show updateFields schema s.dump ((w.key, w.entry.2) :: rest.map Write.entry) s'.dump = _
    unfold updateFields
    simp only [hold]
    rcases hr : schema.reducers.get? w.key with _ | r
    · rw [hr] at hwritten
      cases hwritten
      exact hrest
    · rw [hr] at hwritten
      rcases hreduce : r.reduce old w.entry.2 with e | x
      · simp [hreduce, Except.toOption] at hwritten
      · simp only [hreduce, Except.toOption, Option.some.injEq] at hwritten
        subst hwritten
        simp only [hreduce]
        exact hrest

theorem validate_dump (s : TPRMState) : schema.validate s.dump = .ok s.dump := by
  show (fields.parse (fields.dict s).entries).map fields.dict = .ok (fields.dict s)
  rw [fields.parse_dict]
  rfl

/-- The state of a run. -/
def held (s : TPRMState) : WorkflowState (some schema) where
  data := s.dump
  settled S hS := by
    cases hS
    exact s.validate_dump

theorem applyStateUpdate_writes (s : TPRMState) {ws : List Write}
    (hnodup : (ws.map Write.key).Nodup) :
    applyStateUpdate schema s.dump (updateOf ws) = .ok (s.writeAll ws).dump := by
  unfold applyStateUpdate
  rw [entries_updateOf hnodup, updateFields_writes s s hnodup (fun _ _ => rfl)]
  unfold validateState
  simp only [validate_dump]

theorem apply_writes (s : TPRMState) {ws : List Write} (hnodup : (ws.map Write.key).Nodup) :
    s.held.applyAny (updateOf ws) = .ok (s.writeAll ws).held := by
  have happly := applyStateUpdate_writes s hnodup
  unfold WorkflowState.applyAny
  split
  · rename_i hempty
    cases ws with
    | nil => rfl
    | cons w rest =>
      rw [entries_updateOf hnodup] at hempty
      cases hempty
  · simp only [WorkflowState.apply, held]
    split
    · rename_i d hd
      rw [happly] at hd
      exact congrArg Except.ok (WorkflowState.ext_data (Except.ok.inj hd).symm)
    · rename_i e he
      rw [happly] at he
      cases he

theorem mergeParallelUpdates_writes (s : TPRMState) {updates : List (List Write)}
    (hnodup : ∀ ws ∈ updates, (ws.map Write.key).Nodup) :
    mergeParallelUpdates schema s.dump (updates.map updateOf) =
      .ok (updates.foldl writeAll s).dump := by
  induction updates generalizing s with
  | nil => rfl
  | cons ws rest ih =>
    have hfirst := applyStateUpdate_writes s (hnodup ws List.mem_cons_self)
    rw [List.map_cons]
    unfold mergeParallelUpdates
    simp only [hfirst]
    exact ih _ (fun us hus => hnodup us (List.mem_cons_of_mem _ hus))

theorem merge_writes (s : TPRMState) {updates : List (List Write)}
    (hnodup : ∀ ws ∈ updates, (ws.map Write.key).Nodup) :
    s.held.merge (updates.map updateOf) = .ok (updates.foldl writeAll s).held := by
  have hmerge := mergeParallelUpdates_writes s hnodup
  simp only [WorkflowState.merge, held]
  split
  · rename_i d hd
    rw [hmerge] at hd
    exact congrArg Except.ok (WorkflowState.ext_data (Except.ok.inj hd).symm)
  · rename_i e he
    rw [hmerge] at he
    cases he

end TPRMState

end orchestra.tprm.state
