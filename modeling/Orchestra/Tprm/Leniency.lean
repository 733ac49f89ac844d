-- The verdicts of the policy (`agents/policy.py`) as functions of what is found: more findings
-- make none of them milder, and their order makes no difference.
import Mathlib.Algebra.Order.BigOperators.Group.List
import Mathlib.Data.List.Perm.Basic
import Orchestra.Tprm.Scores

open dicts orchestra.tprm.schemas

namespace orchestra.tprm.verdicts

/-- The order from approve to reject. -/
def verdictRank : VendorVerdict → Nat
  | .approve => 0
  | .conditionalApprove => 1
  | .reject => 2

/-- The order from proceed to walk. -/
def recommendationRank : Recommendation → Nat
  | .proceed => 0
  | .reprice => 1
  | .walk => 2

namespace PolicyAgent

variable {findings added others longer : List Finding}

/-! ## The aggregates of a list of findings -/

section aggregates

variable {p : Finding → Bool} {f : Finding → Int}

theorem any_of_longer (h : longer.Perm (findings ++ added)) (hany : findings.any p = true) :
    longer.any p = true := by
  rw [h.any_eq, List.any_append, hany, Bool.true_or]

theorem sum_perm (h : others.Perm findings) : (others.map f).sum = (findings.map f).sum :=
  (h.map f).sum_eq

theorem sum_le_of_longer (h : longer.Perm (findings ++ added)) (hadded : ∀ g ∈ added, 0 ≤ f g) :
    (findings.map f).sum ≤ (longer.map f).sum := by
  have hnonneg : 0 ≤ (added.map f).sum := by
    refine List.sum_nonneg fun n hn => ?_
    obtain ⟨g, hg, rfl⟩ := List.mem_map.mp hn
    exact hadded g hg
  rw [sum_perm h, List.map_append, List.sum_append]
  exact le_add_of_nonneg_right hnonneg

end aggregates

/-! ## The cascades -/

/-- The verdict rises with the presence of a critical finding and with the score. -/
theorem verdict_le (pack : PolicyPack) {m n : Int}
    (hany : findings.any (fun f => f.severity = .critical) = true →
      others.any (fun f => f.severity = .critical) = true) (h : m ≤ n) :
    verdictRank (verdict pack findings m) ≤ verdictRank (verdict pack others n) := by
  unfold verdict
  cases hrule : pack.rejectIfAnyCritical with
  | false =>
    simp only [Bool.false_and, Bool.false_eq_true, if_false]
    split_ifs <;> first | omega | decide
  | true =>
    simp only [Bool.true_and]
    by_cases hcritical : findings.any (fun f => f.severity = .critical) = true
    · rw [if_pos hcritical, if_pos (hany hcritical)]
    · rw [if_neg hcritical]
      split_ifs <;> first | omega | decide

/-- The recommendation rises with the presence of a deal-stopper and with the exposure. -/
theorem recommendation_le (scope : MAScope)
    (hany : findings.any (stopsDeal scope) = true → others.any (stopsDeal scope) = true)
    (h : (findings.map upperExposure).sum ≤ (others.map upperExposure).sum) :
    recommendationRank (recommendation scope findings) ≤
      recommendationRank (recommendation scope others) := by
  unfold recommendation
  by_cases hstops : findings.any (stopsDeal scope) = true
  · rw [if_pos hstops, if_pos (hany hstops)]
  · rw [if_neg hstops]
    cases threshold scope with
    | none => exact Nat.zero_le _
    | some limit =>
      dsimp only
      split_ifs <;> first | omega | decide

theorem verdict_perm (pack : PolicyPack) (h : others.Perm findings) :
    verdict pack others (score pack others) = verdict pack findings (score pack findings) := by
  have hscore : score pack others = score pack findings := sum_perm h
  unfold verdict
  rw [h.any_eq, hscore]

theorem recommendation_perm (scope : MAScope) (h : others.Perm findings) :
    recommendation scope others = recommendation scope findings := by
  unfold recommendation
  rw [h.any_eq, sum_perm h]

theorem judge_perm (pack : PolicyPack) (scope : Option MAScope) (h : others.Perm findings) :
    (judge pack scope others).1 = (judge pack scope findings).1 := by
  cases scope with
  | none => exact congrArg VendorVerdict.text (verdict_perm pack h)
  | some scope => exact congrArg Recommendation.text (recommendation_perm scope h)

/-- More findings make no verdict milder, and their order changes none. -/
theorem more_findings_make_no_verdict_milder (pack : PolicyPack)
    (hweights : ∀ severity, 0 ≤ weightOf (weights pack) severity)
    (findings added longer : List Finding) (hlonger : longer.Perm (findings ++ added)) :
    verdictRank (verdict pack findings (score pack findings)) ≤
      verdictRank (verdict pack longer (score pack longer)) ∧
    (∀ scope, (∀ f ∈ added, 0 ≤ upperExposure f) →
      recommendationRank (recommendation scope findings) ≤
        recommendationRank (recommendation scope longer)) ∧
    ∀ scope others, others.Perm findings →
      (judge pack scope others).1 = (judge pack scope findings).1 := by
  refine ⟨?_, fun scope hexposure => ?_, fun scope others hperm => judge_perm pack scope hperm⟩
  · refine verdict_le pack (any_of_longer hlonger) ?_
    exact sum_le_of_longer hlonger fun f _ => hweights f.severity
  · exact recommendation_le scope (any_of_longer hlonger) (sum_le_of_longer hlonger hexposure)

/-- The weights of the default score. -/
def weighedPack : PolicyPack :=
  { RiskScoreAgent.standardPack with
    weights := some (RiskScoreAgent.weights RiskScoreAgent.standardPack) }

theorem a_critical_finding_rejects :
    verdictRank (verdict weighedPack [RiskScoreAgent.noted "LegalAgent" .low]
        (score weighedPack [RiskScoreAgent.noted "LegalAgent" .low])) ≤
      verdictRank (verdict weighedPack
        [RiskScoreAgent.noted "TechAgent" .critical, RiskScoreAgent.noted "LegalAgent" .low]
        (score weighedPack
          [RiskScoreAgent.noted "TechAgent" .critical, RiskScoreAgent.noted "LegalAgent" .low])) ∧
    recommendationRank (recommendation ⟨"", none, some 0, [], []⟩
        [RiskScoreAgent.noted "LegalAgent" .low]) ≤
      recommendationRank (recommendation ⟨"", none, some 0, [], []⟩
        [RiskScoreAgent.noted "TechAgent" .critical, RiskScoreAgent.noted "LegalAgent" .low]) := by
  obtain ⟨hverdict, hrecommendation, -⟩ := more_findings_make_no_verdict_milder weighedPack
    RiskScoreAgent.weightTable_standardPack.nonneg
    [RiskScoreAgent.noted "LegalAgent" .low] [RiskScoreAgent.noted "TechAgent" .critical]
    [RiskScoreAgent.noted "TechAgent" .critical, RiskScoreAgent.noted "LegalAgent" .low]
    (List.Perm.swap _ _ _)
  exact ⟨hverdict, hrecommendation ⟨"", none, some 0, [], []⟩ (by decide)⟩

end PolicyAgent

end orchestra.tprm.verdicts
