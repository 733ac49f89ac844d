-- The findings on their way through a diligence run: what the gate and the specialists find is
-- what is scored, judged, written up and kept in the end, each finding once and as it was.
import Orchestra.Tprm.Endings

open dicts orchestra.state orchestra.compiled orchestra.runs
open orchestra.tprm.schemas orchestra.tprm.state orchestra.tprm.answers orchestra.tprm.routing
open orchestra.tprm.verdicts orchestra.tprm.reports orchestra.tprm.stages orchestra.tprm.graph
open orchestra.tprm.specialists orchestra.tprm.wiring orchestra.tprm.pipeline
open orchestra.tprm.endings

namespace orchestra.tprm.findings

/-! ## The agents that read them -/

/-- Where findings stand in a row or a memo. Without an adapter for documents there is none. -/
def Shows (R : Reader) (found : List Finding) : Written → Prop
  | .row row => row.categories = ",".intercalate (found.map (·.category))
  | .memo _ sections => ("Workstream Reports", Coordinator.workstreamReports found) ∈ sections ∧
      ∃ json, R.dumpFindings found = .ok json ∧ ("Appendix: Full Findings", json) ∈ sections
  | .nothing => True

theorem mem_sections (summary json : String) (found : List Finding) (score : Option RiskScore)
    (memo : Option ICMemo) (roadmap : Option RemediationPlan) (plan : Option PMIPlan) :
    ("Workstream Reports", Coordinator.workstreamReports found) ∈
        Coordinator.sections summary json found score memo roadmap plan ∧
      ("Appendix: Full Findings", json) ∈
        Coordinator.sections summary json found score memo roadmap plan := by
  simp [Coordinator.sections]

/-- The coordinator writes out the findings of its state. -/
theorem shows_written {R : Reader} {desk : Coordinator.Config} {answer : Option (Option String)}
    {s : TPRMState} {out : Written × List Write}
    (h : Coordinator.call R desk answer s.dump = .ok out) : Shows R s.findings out.1 := by
  cases hkind : desk.outputKind with
  | sheet =>
    obtain ⟨row, hrow, hcategories⟩ := coordinator_row hkind h
    rw [hrow]
    exact hcategories
  | doc =>
    obtain ⟨summary, json, hjson, hmemo⟩ := coordinator_memo hkind h
    rcases hdoc : desk.newDoc with _ | newDoc
    · simp only [hdoc] at hmemo
      rw [hmemo]
      trivial
    · simp only [hdoc] at hmemo
      obtain ⟨docId, hmemo⟩ := hmemo
      obtain ⟨hreports, happendix⟩ := mem_sections summary json s.findings s.riskAssessment
        s.icMemo s.remediationPlan s.pmiPlan
      rw [hmemo]
      exact ⟨hreports, json, hjson, happendix⟩

/-! ## Runs -/

/-- In a run that reaches its end the risk score, the policy and the coordinator are given one
state each, and there and in the end stand the same findings: those of the gate, and those of the
specialists in the order of the fan-out. These are scored, judged, put on the audit table and
written out. -/
theorem no_finding_is_lost_or_doubled {cfg : ModeConfig} {W : World} {env : Env} {r : RunRequest}
    {G : CompiledGraph} (hbuild : buildGraph cfg W = .ok G) {d : PyDict}
    (hcompleted : (runs.run G env r.input).outcome = .completed d) :
    ∃ scoring judging writing final : TPRMState, d = final.dump ∧
      (seen G env r.input "risk_score" = [scoring.dump] ∧ scoring.findings = found cfg W) ∧
      (seen G env r.input "policy" = [judging.dump] ∧ judging.findings = found cfg W) ∧
      (seen G env r.input "coordinator" = [writing.dump] ∧ writing.findings = found cfg W) ∧
      final.findings = found cfg W ∧
      (∃ score, RiskScoreAgent.call W.reader cfg.pack (W.replies.map Replies.riskScore)
          scoring.dump = .ok [.riskAssessment score] ∧
        RiskScoreAgent.assess W.reader cfg.pack (W.replies.map Replies.riskScore)
          (found cfg W) = .ok score ∧ final.riskAssessment = some score) ∧
      (∃ audit writes, PolicyAgent.call cfg.pack r.runId judging.dump = .ok (audit, writes) ∧
        audit.findings = found cfg W ∧
        final.riskScore = PolicyAgent.score cfg.pack (found cfg W) ∧
        final.policyVerdict =
          (PolicyAgent.judge cfg.pack (r.maScope.getD none) (found cfg W)).1) ∧
      ∃ out, Coordinator.call W.reader (W.desk cfg) (W.replies.map Replies.coordinator)
          writing.dump = .ok out ∧ Shows W.reader (found cfg W) out.1 := by
  rw [buildGraph_eq] at hbuild
  obtain rfl := Except.ok.inj hbuild
  obtain ⟨j, rfl⟩ := journey_of_completed cfg W env r hcompleted
  obtain ⟨hscoring, hjudging, hwriting⟩ := seen_journey cfg W env r j
  have hfound : j.toScore.findings = found cfg W := findings_reviewed j.packed_early j.docs
  have hfindings : j.final.findings = j.toWrite.findings :=
    j.final_same TPRMState.findings (fun _ _ _ => rfl) (fun _ _ => rfl)
  have hassessment : j.final.riskAssessment = j.toWrite.riskAssessment :=
    j.final_same TPRMState.riskAssessment (fun _ _ _ => rfl) (fun _ _ => rfl)
  have hscore : j.final.riskScore = j.toWrite.riskScore :=
    j.final_same TPRMState.riskScore (fun _ _ _ => rfl) (fun _ _ => rfl)
  have hassessed := j.assessed
  have hshows := shows_written j.written
  refine ⟨j.toScore, j.toJudge, j.toWrite, j.final, rfl, ⟨hscoring, hfound⟩, ⟨hjudging, hfound⟩,
    ⟨hwriting, hfound⟩, hfindings.trans hfound, ?_, ?_, ?_⟩
  · have hassessed : RiskScoreAgent.assess W.reader cfg.pack (W.replies.map Replies.riskScore)
        j.toScore.findings = .ok j.score := j.assessed
    refine ⟨j.score, ?_, ?_, hassessment⟩
    · rw [riskScore_dump, hassessed]
      rfl
    · rw [← hfound]
      exact hassessed
  · have hjudged : j.toJudge.findings = found cfg W := hfound
    have hpolicy := policy_dump j.toJudge cfg.pack r.runId
    rw [hjudged] at hpolicy
    have hend : j.final.riskScore = PolicyAgent.score cfg.pack j.toJudge.findings := hscore
    rw [hjudged] at hend
    exact ⟨_, _, hpolicy, rfl, hend, verdict_final j⟩
  · have hwritten : Coordinator.call W.reader (W.desk cfg) (W.replies.map Replies.coordinator)
        j.toWrite.dump = .ok j.out := j.written
    have hshows := shows_written hwritten
    rw [show j.toWrite.findings = found cfg W from hfound] at hshows
    exact ⟨j.out, hwritten, hshows⟩

/-- The lawyer finds something, and there is no provider. -/
def oneFinding : World :=
  { quietWorld (oneText "" .null) none with
    ran := fun _ => .ok [newFinding "LegalAgent" "liability" .critical "No cap on liability."] }

/-- The gate misses six categories of documents. -/
theorem findings_of_a_small_run : ∃ G d final, buildGraph memoMode oneFinding = .ok G ∧
    (runs.run G inOrder vendorRequest.input).outcome = .completed d ∧
    d = TPRMState.dump final ∧
    final.findings.map (·.agent) = List.replicate 6 "VDRGate" ++ ["LegalAgent"] := by
  have hanswered : Answered memoMode oneFinding :=
    answered_of_silence rfl (by decide +kernel) ⟨"[]", rfl⟩
  obtain ⟨j⟩ := journey_of_answered (r := vendorRequest) hanswered
  have hcompleted := completed_of_journey memoMode oneFinding inOrder vendorRequest j
  obtain ⟨-, -, -, final, hd, -, -, -, hfindings, -⟩ :=
    no_finding_is_lost_or_doubled (buildGraph_eq memoMode oneFinding) hcompleted
  refine ⟨_, _, final, buildGraph_eq memoMode oneFinding, hcompleted, hd, ?_⟩
  rw [hfindings]
  decide +kernel

end orchestra.tprm.findings
