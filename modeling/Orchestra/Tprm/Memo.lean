-- The plan for the integration and the memo of a diligence run: the coordinator writes the memo
-- before there is a plan, so the memo has it only when nothing is planned.
import Mathlib.Data.List.TakeWhile
import Orchestra.Tprm.Endings

open dicts texts orchestra.state orchestra.compiled orchestra.runs
open orchestra.tprm.schemas orchestra.tprm.state orchestra.tprm.answers orchestra.tprm.reports
open orchestra.tprm.stages orchestra.tprm.graph orchestra.tprm.wiring orchestra.tprm.pipeline
open orchestra.tprm.endings

namespace orchestra.tprm.memo

/-! ## Plans with nothing in them -/

/-- Nothing is planned: no finding has a decision, or the answer is an object none of whose items
is an action of a known workstream. -/
def PlansNothing (R : Reader) (answer : Option (Option String)) (findings : List Finding) : Prop :=
  PMIPlannerAgent.icFindings findings = [] ∨
    ∃ content members, answer = some content ∧ strip (content.getD "") ≠ "" ∧
      R.loads (stripJsonFences R (strip (content.getD ""))) = .ok (.dict members) ∧
        ∀ items, ((Json.get? members "items").getD .null).iterate = .ok items →
          ∀ item ∈ items, PMIPlannerAgent.itemOf R item = none

theorem items_fallbackPlan {findings : List Finding} (h : findings ≠ []) :
    (PMIPlannerAgent.fallbackPlan findings).items ≠ [] := by
  intro hnone
  exact h (List.map_eq_nil_iff.mp hnone)

/-- Without a truth value there is nothing to go through. -/
theorem iterate_of_falsy {v : Json} (h : v.truthy = false) {items : List Json}
    (hitems : v.iterate = .ok items) : items = [] := by
  cases v with
  | str s =>
    have hs : s = "" := by simpa [Json.truthy] using h
    subst hs
    cases hitems
    rfl
  | list found =>
    cases hitems
    simpa [Json.truthy] using h
  | dict members =>
    have hempty : members = [] := by simpa [Json.truthy] using h
    subst hempty
    cases hitems
    rfl
  | _ => cases hitems

theorem items_planOf {R : Reader} {subject : String} {members : List (String × Json)}
    {plan : PMIPlan} (h : PMIPlannerAgent.planOf R subject members = .ok plan) :
    plan.items = [] ↔ ∀ items, ((Json.get? members "items").getD .null).iterate = .ok items →
      ∀ item ∈ items, PMIPlannerAgent.itemOf R item = none := by
  unfold PMIPlannerAgent.planOf at h
  generalize (Json.get? members "items").getD .null = raw at h ⊢
  cases hraw : raw.truthy with
  | false =>
    simp only [bind, Except.bind, hraw, Bool.false_eq_true, if_false, Except.ok.injEq] at h
    have hnone : plan.items = [] := by
      rw [← h]
      rfl
    refine iff_of_true hnone fun items hitems item hitem => ?_
    rw [iterate_of_falsy hraw hitems] at hitem
    cases hitem
  | true =>
    rcases hitems : raw.iterate with e | items
    · simp only [bind, Except.bind, hraw, if_true, hitems, reduceCtorEq] at h
    · simp only [bind, Except.bind, hraw, if_true, hitems, Except.ok.injEq] at h
      have hkept : plan.items = items.filterMap (PMIPlannerAgent.itemOf R) := by
        rw [← h]
      rw [hkept, List.filterMap_eq_nil_iff]
      constructor
      · rintro hnone _ ⟨⟩
        exact hnone
      · exact fun hnone => hnone items rfl

theorem items_readPlan {R : Reader} {subject : String} {findings : List Finding}
    (hsome : findings ≠ []) {content : String} {plan : PMIPlan}
    (h : PMIPlannerAgent.readPlan R subject findings content = .ok plan) :
    plan.items = [] ↔ ∃ members, strip content ≠ "" ∧
      R.loads (stripJsonFences R (strip content)) = .ok (.dict members) ∧
        ∀ items, ((Json.get? members "items").getD .null).iterate = .ok items →
          ∀ item ∈ items, PMIPlannerAgent.itemOf R item = none := by
  have hfallback := items_fallbackPlan hsome
  unfold PMIPlannerAgent.readPlan at h
  by_cases hempty : strip content = ""
  · simp only [hempty, if_true, Except.ok.injEq] at h
    subst h
    exact iff_of_false hfallback (by rintro ⟨members, hnonempty, -⟩; exact hnonempty hempty)
  simp only [hempty, if_false] at h
  rcases hloads : R.loads (stripJsonFences R (strip content)) with (message | error) | v
  · simp only [hloads, Except.ok.injEq] at h
    subst h
    exact iff_of_false hfallback (by rintro ⟨members, -, hdict, -⟩; cases hdict)
  · simp only [hloads, reduceCtorEq] at h
  cases v with
  | dict members =>
    simp only [hloads] at h
    rw [items_planOf h]
    simp [hempty]
  | _ =>
    simp only [hloads, Except.ok.injEq] at h
    subst h
    exact iff_of_false hfallback (by rintro ⟨members, -, hdict, -⟩; cases hdict)

/-- The plan that an agent makes is empty if and only if nothing is planned. -/
theorem items_plan {R : Reader} {answer : Option (Option String)} {subject : String}
    {findings : List Finding} {plan : PMIPlan}
    (h : PMIPlannerAgent.plan R answer subject findings = .ok plan) :
    plan.items = [] ↔ PlansNothing R answer findings := by
  unfold PMIPlannerAgent.plan at h
  unfold PlansNothing
  by_cases hic : PMIPlannerAgent.icFindings findings = []
  · simp only [hic, List.isEmpty_nil, if_true, Except.ok.injEq] at h
    subst h
    exact iff_of_true rfl (.inl hic)
  have hisEmpty : (PMIPlannerAgent.icFindings findings).isEmpty = false := by
    simpa [List.isEmpty_iff] using hic
  simp only [hisEmpty, Bool.false_eq_true, if_false] at h
  rcases answer with _ | content
  · simp only [Except.ok.injEq] at h
    subst h
    exact iff_of_false (items_fallbackPlan hic) (by simp [hic])
  · simp only [bind, Except.bind] at h
    rcases hdump : R.dumpFindings (PMIPlannerAgent.icFindings findings) with e | json
    · simp only [hdump, reduceCtorEq] at h
    · simp only [hdump] at h
      rw [items_readPlan hic h]
      simp [hic]

/-! ## The text of a plan -/

theorem mem_joined {c : Char} {line : String} {lines : List String} (hline : line ∈ lines)
    (hc : c ∈ line.toList) : c ∈ (joined lines).toList := by
  unfold joined
  induction lines with
  | nil => cases hline
  | cons first rest ih =>
    by_cases hrest : rest = []
    · subst hrest
      obtain rfl := List.mem_singleton.mp hline
      rw [String.intercalate_singleton]
      exact hc
    · rw [String.intercalate_cons_of_ne_nil hrest, String.toList_append, String.toList_append]
      rcases List.mem_cons.mp hline with rfl | hlater
      · simp [hc]
      · exact List.mem_append_right _ (ih hlater)

theorem mem_block {c : Char} {line : String} {lines : List String} (hline : line ∈ lines)
    (hc : c ∈ line.toList) (hspace : isSpace c = false) : c ∈ (block lines).toList := by
  unfold block rstrip
  rw [String.toList_ofList, List.mem_reverse]
  have hmem : c ∈ (joined lines).toList.reverse := List.mem_reverse.mpr (mem_joined hline hc)
  rw [← List.takeWhile_append_dropWhile (p := isSpace) (l := (joined lines).toList.reverse)] at hmem
  rcases List.mem_append.mp hmem with hblank | hkept
  · rw [List.mem_takeWhile_imp hblank] at hspace
    cases hspace
  · exact hkept

theorem tier_mem_all (tier : DeadlineTier) : tier ∈ DeadlineTier.all := by
  cases tier <;> decide

/-- A plan with items has a heading. -/
theorem heading_mem_render {plan : PMIPlan} (h : plan.items ≠ []) :
    '#' ∈ (Coordinator.renderPmiPlan (some plan)).toList := by
  obtain ⟨item, rest, hitems⟩ := List.exists_cons_of_ne_nil h
  have hlines : ∃ line ∈ Coordinator.tierLines plan.items item.deadlineTier, '#' ∈ line.toList := by
    unfold Coordinator.tierLines
    rw [hitems, List.filter_cons_of_pos (by simp)]
    exact ⟨_, List.mem_cons_self, by simp⟩
  obtain ⟨line, hline, hheading⟩ := hlines
  unfold Coordinator.renderPmiPlan
  simp only [hitems, List.isEmpty_cons, Bool.false_eq_true, if_false]
  rw [← hitems]
  refine mem_block (?_ : line ∈ _ ++ _) hheading (by decide)
  apply List.mem_append_right
  exact List.mem_flatMap.mpr ⟨item.deadlineTier, tier_mem_all _, hline⟩

/-- The text for no plan is that of a plan without items, and of no other one. -/
theorem render_none_iff (plan : PMIPlan) :
    Coordinator.renderPmiPlan none = Coordinator.renderPmiPlan (some plan) ↔ plan.items = [] := by
  constructor
  · intro h
    by_contra hitems
    have hheading := heading_mem_render hitems
    rw [← h] at hheading
    revert hheading
    decide
  · intro h
    simp [Coordinator.renderPmiPlan, h]

/-! ## Runs -/

theorem lookup_sections (summary json : String) (found : List Finding) (score : Option RiskScore)
    (memo : Option ICMemo) (roadmap : Option RemediationPlan) (plan : Option PMIPlan) :
    (Coordinator.sections summary json found score memo roadmap plan).lookup "PMI 100-Day Plan" =
      some (Coordinator.renderPmiPlan plan) := by
  cases score <;> cases roadmap <;> rfl

/-- The memo of a run is written without a plan, and the run ends with one. -/
theorem memo_journey {cfg : ModeConfig} {W : World} {r : RunRequest} (j : Journey cfg W r)
    (hkind : cfg.outputKind = .doc) {newDoc : String → String} (hdocs : W.newDoc = some newDoc) :
    (∃ docId sections, j.out.1 = .memo docId sections ∧
      sections.lookup "PMI 100-Day Plan" = some (Coordinator.renderPmiPlan none)) ∧
    ∃ plan, j.final.pmiPlan = some plan ∧
      (plan.items = [] ↔ PlansNothing W.reader (W.replies.map Replies.planner) (found cfg W)) := by
  have hplan : j.toWrite.pmiPlan = none := j.packed_early.pmiPlan
  have hfound : j.toWrite.findings = found cfg W := findings_reviewed j.packed_early j.docs
  have hwritten : Coordinator.call W.reader (W.desk cfg) (W.replies.map Replies.coordinator)
      j.toWrite.dump = .ok j.out := j.written
  obtain ⟨summary, json, -, hmemo⟩ := coordinator_memo hkind hwritten
  rw [show (W.desk cfg).newDoc = some newDoc from hdocs, hplan] at hmemo
  obtain ⟨docId, hmemo⟩ := hmemo
  refine ⟨⟨docId, _, hmemo, lookup_sections ..⟩, ?_⟩
  obtain ⟨docId, path, hfinal⟩ := j.final_eq
  rw [hkind] at hfinal
  obtain ⟨plan, hmade, hfinal⟩ := hfinal
  rw [hfound] at hmade
  exact ⟨plan, by rw [hfinal], items_plan hmade⟩

/-- The memo that a run writes has the plan that the run ends with, if and only if nothing is
planned. -/
theorem the_memo_has_the_plan_iff {cfg : ModeConfig} {W : World} {env : Env} {r : RunRequest}
    {G : CompiledGraph} (hbuild : buildGraph cfg W = .ok G) (hkind : cfg.outputKind = .doc)
    {newDoc : String → String} (hdocs : W.newDoc = some newDoc) {d : PyDict}
    (hcompleted : (runs.run G env r.input).outcome = .completed d) :
    ∃ writing final docId sections writes, d = TPRMState.dump final ∧
      seen G env r.input "coordinator" = [writing] ∧
      Coordinator.call W.reader (W.desk cfg) (W.replies.map Replies.coordinator) writing =
        .ok (.memo docId sections, writes) ∧
      (sections.lookup "PMI 100-Day Plan" = some (Coordinator.renderPmiPlan final.pmiPlan) ↔
        PlansNothing W.reader (W.replies.map Replies.planner) (found cfg W)) := by
  rw [buildGraph_eq] at hbuild
  obtain rfl := Except.ok.inj hbuild
  obtain ⟨j, rfl⟩ := journey_of_completed cfg W env r hcompleted
  obtain ⟨⟨docId, sections, hmemo, hlookup⟩, plan, hplan, hitems⟩ := memo_journey j hkind hdocs
  have hwritten : Coordinator.call W.reader (W.desk cfg) (W.replies.map Replies.coordinator)
      j.toWrite.dump = .ok (.memo docId sections, j.out.2) := by
    rw [← hmemo]
    exact j.written
  refine ⟨j.toWrite.dump, j.final, docId, sections, j.out.2, rfl, (seen_journey cfg W env r j).2.2,
    hwritten, ?_⟩
  rw [hlookup, hplan, Option.some.injEq, render_none_iff, hitems]

/-! ## Two memos -/

/-- There is an adapter for documents, and no provider. The packet is one document. -/
def dealWorld (path : String) : World :=
  { quietWorld (oneText "" .null) none with
    packet := .folder [⟨path, "/packet/" ++ path, none⟩] none
    newDoc := some (fun title => title) }

theorem answered_dealWorld (path : String) : Answered memoMode (dealWorld path) :=
  answered_of_silence rfl (by decide +kernel) ⟨"[]", rfl⟩

/-- The document belongs to all categories, and so nothing is planned. -/
theorem a_memo_without_actions : ∃ G final docId sections writing writes,
    buildGraph memoMode (dealWorld "annual-minutes-patent-soc2-equity-grant-irs.pdf") = .ok G ∧
      (runs.run G inOrder vendorRequest.input).outcome = .completed (TPRMState.dump final) ∧
      Coordinator.call (oneText "" .null)
        ((dealWorld "annual-minutes-patent-soc2-equity-grant-irs.pdf").desk memoMode) none
          writing = .ok (.memo docId sections, writes) ∧
      sections.lookup "PMI 100-Day Plan" = some (Coordinator.renderPmiPlan final.pmiPlan) := by
  obtain ⟨j⟩ := journey_of_answered (r := vendorRequest)
    (answered_dealWorld "annual-minutes-patent-soc2-equity-grant-irs.pdf")
  have hcompleted := completed_of_journey _ _ inOrder _ j
  obtain ⟨writing, final, docId, sections, writes, hfinal, -, hwritten, hplan⟩ :=
    the_memo_has_the_plan_iff (buildGraph_eq _ _) rfl rfl hcompleted
  rw [hfinal] at hcompleted
  exact ⟨_, final, docId, sections, writing, writes, buildGraph_eq _ _, hcompleted, hwritten,
    hplan.mpr (.inl (by decide +kernel))⟩

/-- The gate misses five categories, and the plan has an action for each. The memo says that none
is planned. -/
theorem a_memo_without_its_plan : ∃ G final writing docId sections writes,
    buildGraph memoMode (dealWorld "annual.pdf") = .ok G ∧
      (runs.run G inOrder vendorRequest.input).outcome = .completed (TPRMState.dump final) ∧
      seen G inOrder vendorRequest.input "coordinator" = [writing] ∧
      Coordinator.call (oneText "" .null) ((dealWorld "annual.pdf").desk memoMode) none writing =
        .ok (.memo docId sections, writes) ∧
      sections.lookup "PMI 100-Day Plan" = some "No PMI actions planned." ∧
      sections.lookup "PMI 100-Day Plan" ≠ some (Coordinator.renderPmiPlan final.pmiPlan) := by
  obtain ⟨j⟩ := journey_of_answered (r := vendorRequest) (answered_dealWorld "annual.pdf")
  obtain ⟨⟨docId, sections, hmemo, hlookup⟩, plan, hplan, hitems⟩ := memo_journey j rfl rfl
  have hwritten : Coordinator.call (oneText "" .null) ((dealWorld "annual.pdf").desk memoMode) none
      j.toWrite.dump = .ok (.memo docId sections, j.out.2) := by
    rw [← hmemo]
    exact j.written
  have hplanned : ¬ PlansNothing (oneText "" .null) none
      (found memoMode (dealWorld "annual.pdf")) := by
    rintro (hnone | ⟨content, members, hanswer, -⟩)
    · revert hnone
      decide +kernel
    · cases hanswer
  refine ⟨_, j.final, j.toWrite.dump, docId, sections, j.out.2, buildGraph_eq _ _,
    completed_of_journey _ _ inOrder _ j, (seen_journey _ _ inOrder _ j).2.2, hwritten, hlookup, ?_⟩
  rw [hlookup, hplan, ne_eq, Option.some.injEq, render_none_iff, hitems]
  exact hplanned

end orchestra.tprm.memo
