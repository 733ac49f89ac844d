-- The routing at the end of a diligence run: when every specialist has a document and every
-- document has a specialist.
import Orchestra.Tprm.Endings

open dicts orchestra.state orchestra.compiled orchestra.runs
open orchestra.tprm.schemas orchestra.tprm.state orchestra.tprm.answers orchestra.tprm.routing
open orchestra.tprm.reports orchestra.tprm.stages orchestra.tprm.graph orchestra.tprm.wiring
open orchestra.tprm.pipeline orchestra.tprm.coverage orchestra.tprm.endings

namespace orchestra.tprm.assignments

/-- No agent after the router touches the routing, and none after intake the URIs. -/
theorem final_routed {cfg : ModeConfig} {W : World} {r : RunRequest} (j : Journey cfg W r) :
    j.final.routing = j.docs ∧ j.final.fileUris = W.packet.fileUris := by
  have hrouting : j.toWrite.routing = j.packed.routing.update j.docs := rfl
  have huris : j.toWrite.fileUris = j.packed.fileUris := rfl
  rw [j.packed_early.routing, show Dict.empty.update j.docs = j.docs from
    Dict.ofList_entries j.docs] at hrouting
  rw [j.packed_early.fileUris] at huris
  exact ⟨(j.final_same TPRMState.routing (fun _ _ _ => rfl) (fun _ _ => rfl)).trans hrouting,
    (j.final_same TPRMState.fileUris (fun _ _ _ => rfl) (fun _ _ => rfl)).trans huris⟩

/-- In the end of a run every active specialist has a document of the packet and every document
has an active specialist, if and only if what the answer of the router gives to whom suffices. -/
theorem everyone_is_covered_iff {cfg : ModeConfig} {W : World} {env : Env} {r : RunRequest}
    {G : CompiledGraph} (hbuild : buildGraph cfg W = .ok G) {d : PyDict}
    (hcompleted : (runs.run G env r.input).outcome = .completed d) :
    ∃ final : TPRMState, d = final.dump ∧
      (Covered cfg.activeNames W.packet.manifest final.routing final.fileUris ↔
        ∃ pairs spare, assigned W.reader (W.replies.map Replies.router) W.packet.manifest =
          .ok (pairs, spare) ∧ Suffices cfg.activeNames W.packet spare pairs) := by
  rw [buildGraph_eq] at hbuild
  obtain rfl := Except.ok.inj hbuild
  obtain ⟨j, rfl⟩ := journey_of_completed cfg W env r hcompleted
  obtain ⟨hrouting, huris⟩ := final_routed j
  have hrouted := j.routed
  rw [j.packed_early.manifest] at hrouted
  refine ⟨j.final, rfl, ?_⟩
  rw [hrouting, huris]
  exact docRouter_covers_iff hrouted

/-- One contract, and a lawyer who reads it. -/
theorem the_lawyer_reads_the_contract : ∃ G final,
    buildGraph vendorMode (quietWorld (oneText "" .null) none) = .ok G ∧
      (runs.run G inOrder vendorRequest.input).outcome = .completed (TPRMState.dump final) ∧
      Covered vendorMode.activeNames (quietWorld (oneText "" .null) none).packet.manifest
        final.routing final.fileUris := by
  have hanswered : Answered vendorMode (quietWorld (oneText "" .null) none) :=
    answered_of_silence rfl (by decide +kernel) ⟨"[]", rfl⟩
  obtain ⟨j⟩ := journey_of_answered (r := vendorRequest) hanswered
  have hcompleted := completed_of_journey _ _ inOrder _ j
  obtain ⟨final, hfinal, hcovered⟩ := everyone_is_covered_iff (buildGraph_eq _ _) hcompleted
  rw [hfinal] at hcompleted
  refine ⟨_, final, buildGraph_eq _ _, hcompleted, hcovered.mpr ⟨_, _, rfl, ?_⟩⟩
  have hstands : Stands (quietWorld (oneText "" .null) none).packet "msa.pdf"
      "local:///packet/msa.pdf" := (get?_fileUris ..).mp (by decide +kernel)
  constructor
  · intro name hname _
    obtain rfl : name = "LegalAgent" := List.mem_singleton.mp hname
    exact ⟨"msa.pdf", by decide +kernel, _, hstands⟩
  · intro e he
    obtain rfl := List.mem_singleton.mp he
    exact ⟨"msa.pdf", hstands, "LegalAgent", by decide +kernel, .inl (by decide +kernel)⟩

/-- Two documents with one file name. -/
def twinPacket : Packet :=
  .folder [⟨"a/msa.pdf", "/packet/a/msa.pdf", some "contract"⟩,
    ⟨"b/msa.pdf", "/packet/b/msa.pdf", some "contract"⟩] none

/-- The router answers nothing. -/
def twinWorld : World :=
  { quietWorld (oneText "" .null) (some ⟨some "", none, none, none, none⟩) with
    packet := twinPacket }

theorem answered_twinWorld : Answered vendorMode twinWorld where
  router content hcontent text htext := by
    obtain rfl := Option.some.inj hcontent
    cases htext
  weights := .inl rfl
  remediation content hcontent := by cases hcontent
  dump := ⟨"[]", rfl⟩
  narrative hkind := by cases hkind
  planner hkind := by cases hkind

/-- The second document takes the name of the first one, which is then out of reach. -/
theorem a_twin_is_read_by_nobody : ∃ G final,
    buildGraph vendorMode twinWorld = .ok G ∧
      (runs.run G inOrder vendorRequest.input).outcome = .completed (TPRMState.dump final) ∧
      ¬ Covered vendorMode.activeNames twinPacket.manifest final.routing final.fileUris := by
  obtain ⟨j⟩ := journey_of_answered (r := vendorRequest) answered_twinWorld
  refine ⟨_, j.final, buildGraph_eq _ _, completed_of_journey _ _ inOrder _ j, ?_⟩
  rw [(final_routed j).2]
  intro hcovered
  have hfirst : (⟨"a/msa.pdf", "contract", "local:///packet/a/msa.pdf"⟩ : ManifestEntry) ∈
      twinPacket.manifest := by decide
  obtain ⟨name, -, docs, -, doc, -, huri⟩ := hcovered.documents _ hfirst
  have hentries : twinPacket.fileUris.entries = [("contract", "local:///packet/b/msa.pdf"),
      ("msa.pdf", "local:///packet/b/msa.pdf")] := by decide +kernel
  have hmem := (Dict.mem_entries_iff twinPacket.fileUris _ _).mpr huri
  simp [hentries] at hmem

end orchestra.tprm.assignments
