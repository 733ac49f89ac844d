-- The laws of the risk score (`agents/risk_score.py`): its bounds, its place among the dimension
-- scores, and what another order, a raised severity or one more finding does to it.
import Orchestra.Lib.Means
import Orchestra.Tprm.Verdicts

open dicts texts decimals means orchestra.tprm.schemas orchestra.tprm.answers

namespace orchestra.tprm.verdicts

/-! ## Tables of weights -/

/-- The order from low to critical. -/
def rank : Severity → Nat
  | .low => 0
  | .medium => 1
  | .high => 2
  | .critical => 3

/-- `self._weights.get("critical", 15)` -/
def criticalWeight (weights : Dict String Int) : Int := (weights.get? "critical").getD 15

/-- No severity has a negative weight, and the critical one has a positive one. -/
structure WeightTable (weights : Dict String Int) : Prop where
  nonneg : ∀ severity, 0 ≤ weightOf weights severity
  critical : 0 < criticalWeight weights

/-- A worse severity does not weigh less. -/
def Rising (weights : Dict String Int) : Prop :=
  ∀ s t, rank s ≤ rank t → weightOf weights s ≤ weightOf weights t

namespace RiskScoreAgent

/-! ## The score is a rounded mean -/

/-- What a finding alone would score, before the rounding. -/
def share (weights : Dict String Int) (f : Finding) : Rat :=
  (100 * weightOf weights f.severity : Int) / (criticalWeight weights : Int)

/-- A mean of shares, as a score shows it. -/
def grade (weights : Dict String Int) (findings : List Finding) : Percent :=
  clamp (halfEven (mean (share weights) findings))

section table

variable {weights : Dict String Int} {findings others : List Finding}

theorem sum_share (weights : Dict String Int) (findings : List Finding) :
    (findings.map (share weights)).sum =
      (100 * (findings.map (fun f => weightOf weights f.severity)).sum : Int) /
        (criticalWeight weights : Rat) := by
  induction findings with
  | nil => simp
  | cons f rest ih =>
    rw [List.map_cons, List.sum_cons, ih, List.map_cons, List.sum_cons]
    unfold share
    push_cast
    ring

theorem mean_share (weights : Dict String Int) (findings : List Finding) :
    mean (share weights) findings =
      (100 * (findings.map (fun f => weightOf weights f.severity)).sum : Int) /
        ((findings.length * criticalWeight weights : Int) : Rat) := by
  unfold mean
  rw [sum_share]
  push_cast
  rw [div_div, mul_comm (criticalWeight weights : Rat)]

theorem share_nonneg (ht : WeightTable weights) (f : Finding) : 0 ≤ share weights f := by
  have hcritical : (0 : Rat) < (criticalWeight weights : Int) := by exact_mod_cast ht.critical
  refine div_nonneg ?_ hcritical.le
  exact_mod_cast mul_nonneg (by norm_num) (ht.nonneg f.severity)

theorem share_le (ht : WeightTable weights) {f g : Finding}
    (h : weightOf weights f.severity ≤ weightOf weights g.severity) :
    share weights f ≤ share weights g := by
  have hcritical : (0 : Rat) < (criticalWeight weights : Int) := by exact_mod_cast ht.critical
  refine div_le_div_of_nonneg_right ?_ hcritical.le
  exact_mod_cast mul_le_mul_of_nonneg_left h (by norm_num)

theorem roundInt_nonneg {x : Rat} (h : 0 ≤ x) : roundInt x = halfEven x := by
  unfold roundInt
  rw [if_neg (not_lt.mpr h)]

theorem score_eq (ht : WeightTable weights) (hfindings : findings ≠ []) :
    score weights findings = .ok (grade weights findings) := by
  have hlength : 0 < findings.length := List.length_pos_iff.mpr hfindings
  have hmax : ((max findings.length 1 : Nat) : Int) = findings.length := by
    rw [max_eq_left hlength]
  have hne : (findings.length : Int) * criticalWeight weights ≠ 0 :=
    mul_ne_zero (by exact_mod_cast hlength.ne') ht.critical.ne'
  have hnonneg : 0 ≤ mean (share weights) findings :=
    mean_nonneg fun f _ => share_nonneg ht f
  unfold score grade
  dsimp only
  rw [hmax]
  change (if (findings.length : Int) * criticalWeight weights = 0 then _ else
    Except.ok (clamp (roundInt (_ / ((findings.length * criticalWeight weights : Int) : Rat))))) = _
  rw [if_neg hne, ← mean_share, roundInt_nonneg hnonneg]

theorem clamp_mono {m n : Int} (h : m ≤ n) : (clamp m).val ≤ (clamp n).val := by
  simp only [clamp]
  omega

/-- A grade follows its mean. -/
theorem grade_le (h : mean (share weights) findings ≤ mean (share weights) others) :
    (grade weights findings).val ≤ (grade weights others).val :=
  clamp_mono (by exact_mod_cast halfEven_mono h)

theorem grade_perm (h : findings.Perm others) : grade weights findings = grade weights others := by
  unfold grade
  rw [mean_perm h]

/-! ## The findings of a dimension -/

theorem get?_byAgent (findings : List Finding) (dim : String) :
    (byAgent findings).get? dim =
      if findings.filter (fun f => dimension f = dim) = [] then none
      else some (findings.filter fun f => dimension f = dim) := by
  induction findings using List.reverseRecOn with
  | nil => rfl
  | append_singleton before f ih =>
    unfold byAgent at ih ⊢
    rw [List.foldl_append, List.foldl_cons, List.foldl_nil, Dict.get?_set, List.filter_append]
    by_cases hdim : dimension f = dim
    · subst hdim
      rw [if_pos rfl, ih]
      by_cases hnil : before.filter (fun g => dimension g = dimension f) = []
      · simp [hnil]
      · simp [hnil]
    · rw [if_neg hdim, ih]
      simp [hdim]

/-- The score of each dimension that comes up. -/
theorem dimensions_eq (ht : WeightTable weights) (findings : List Finding) :
    dimensions weights findings =
      .ok ((byAgent findings).map fun items => (grade weights items).val) := by
  have heach : ∀ es : List (String × List Finding), (∀ e ∈ es, e.2 ≠ []) →
      scoreEach weights es = .ok (es.map fun e => (e.1, (grade weights e.2).val)) := by
    intro es hes
    induction es with
    | nil => rfl
    | cons e rest ih =>
      unfold scoreEach
      rw [score_eq ht (hes e List.mem_cons_self),
        ih fun e he => hes e (List.mem_cons_of_mem _ he)]
      rfl
  have hparts : ∀ e ∈ (byAgent findings).entries, e.2 ≠ [] := by
    rintro ⟨dim, items⟩ he
    rw [Dict.mem_entries_iff, get?_byAgent] at he
    split at he
    · exact absurd he nofun
    · rename_i hne
      cases he
      exact hne
  unfold dimensions
  rw [heach _ hparts]
  exact congrArg Except.ok (Dict.ofList_entries
    ((byAgent findings).map fun items => (grade weights items).val))

theorem get?_dimensions (findings : List Finding) (dim : String) (n : Int) :
    ((byAgent findings).map fun items => (grade weights items).val).get? dim = some n ↔
      ∃ f ∈ findings, dimension f = dim ∧
        n = (grade weights (partOf dimension f findings)).val := by
  rw [Dict.get?_map, get?_byAgent]
  constructor
  · intro h
    by_cases hnil : findings.filter (fun f => dimension f = dim) = []
    · simp [hnil] at h
    · obtain ⟨f, hf⟩ := List.exists_mem_of_ne_nil _ hnil
      obtain ⟨hmem, hdim⟩ := List.mem_filter.mp hf
      have hdim : dimension f = dim := by simpa using hdim
      subst hdim
      rw [if_neg hnil] at h
      exact ⟨f, hmem, rfl, (Option.some.inj h).symm⟩
  · rintro ⟨f, hmem, rfl, rfl⟩
    have hne : findings.filter (fun g => dimension g = dimension f) ≠ [] := ne_nil_partOf hmem
    rw [if_neg hne]
    rfl

/-! ## Raised severities -/

theorem mean_raised {before after : List Finding} {f g : Finding}
    (h : share weights f ≤ share weights g) :
    mean (share weights) (before ++ f :: after) ≤ mean (share weights) (before ++ g :: after) := by
  have hsame : ∀ l : List Finding,
      List.Forall₂ (fun x y => share weights x ≤ share weights y) l l :=
    fun l => List.forall₂_same.mpr fun _ _ => le_refl _
  exact mean_mono (List.rel_append (hsame before) (.cons h (hsame after)))

/-- Within its dimension a finding is raised as it is in the whole. -/
theorem mean_part_raised {before after : List Finding} {f g : Finding}
    (hdim : dimension g = dimension f) (h : share weights f ≤ share weights g) (x : Finding) :
    mean (share weights) (partOf dimension x (before ++ f :: after)) ≤
      mean (share weights) (partOf dimension x (before ++ g :: after)) := by
  unfold partOf
  rw [List.filter_append, List.filter_append, List.filter_cons, List.filter_cons, hdim]
  by_cases hx : dimension f = dimension x
  · rw [if_pos (by simpa using hx), if_pos (by simpa using hx)]
    exact mean_raised h
  · rw [if_neg (by simpa using hx), if_neg (by simpa using hx)]

/-- The part of a dimension does not depend on the finding that names it. -/
theorem partOf_of_dimension {f g : Finding} (h : dimension f = dimension g) :
    partOf dimension f findings = partOf dimension g findings := by
  unfold partOf
  rw [h]

end table

/-- The risk score is the rounded mean of the shares: it is one of the percentages between those
of the dimensions, no order changes it, and a raised severity does not lower it. -/
theorem a_score_lies_among_the_scores_of_its_dimensions {weights : Dict String Int}
    (ht : WeightTable weights) {findings : List Finding} (hne : findings ≠ []) :
    ∃ overall dims,
      score weights findings = .ok overall ∧ dimensions weights findings = .ok dims ∧
      (0 ≤ overall.val ∧ overall.val ≤ 100) ∧
      (∀ dim n, dims.get? dim = some n → 0 ≤ n ∧ n ≤ 100) ∧
      (∃ dim n, dims.get? dim = some n ∧ n ≤ overall.val) ∧
      (∃ dim n, dims.get? dim = some n ∧ overall.val ≤ n) ∧
      (∀ others, others.Perm findings → ∃ dims',
        score weights others = .ok overall ∧ dimensions weights others = .ok dims' ∧
        ∀ dim, dims'.get? dim = dims.get? dim) ∧
      (Rising weights → ∀ before f after severity, findings = before ++ f :: after →
        rank f.severity ≤ rank severity → ∃ overall' dims',
          score weights (before ++ { f with severity } :: after) = .ok overall' ∧
          dimensions weights (before ++ { f with severity } :: after) = .ok dims' ∧
          overall.val ≤ overall'.val ∧
          ∀ dim n, dims.get? dim = some n → ∃ n', dims'.get? dim = some n' ∧ n ≤ n') := by
  refine ⟨_, _, score_eq ht hne, dimensions_eq ht findings, (grade weights findings).2,
    ?_, ?_, ?_, ?_, ?_⟩
  · intro dim n hn
    obtain ⟨f, -, -, rfl⟩ := (get?_dimensions findings dim n).mp hn
    exact (grade weights _).2
  · obtain ⟨f, hf, hle⟩ := exists_part_le (share weights) dimension hne
    exact ⟨_, _, (get?_dimensions findings _ _).mpr ⟨f, hf, rfl, rfl⟩, grade_le hle⟩
  · obtain ⟨f, hf, hle⟩ := exists_part_ge (share weights) dimension hne
    exact ⟨_, _, (get?_dimensions findings _ _).mpr ⟨f, hf, rfl, rfl⟩, grade_le hle⟩
  · intro others hperm
    have hothers : others ≠ [] := fun h => hne (by simpa [h] using hperm.symm)
    refine ⟨_, ?_, dimensions_eq ht others, fun dim => Option.ext fun n => ?_⟩
    · rw [score_eq ht hothers, grade_perm hperm]
    · rw [get?_dimensions, get?_dimensions]
      have hpart : ∀ f, grade weights (partOf dimension f others) =
          grade weights (partOf dimension f findings) := fun f => grade_perm (hperm.filter _)
      simp only [hpart, hperm.mem_iff]
  · rintro hrising before f after severity rfl hrank
    have hshare : share weights f ≤ share weights { f with severity } :=
      share_le ht (hrising _ _ hrank)
    refine ⟨_, _, score_eq ht (by simp), dimensions_eq ht _, grade_le (mean_raised hshare), ?_⟩
    intro dim n hn
    obtain ⟨g, hg, rfl, rfl⟩ := (get?_dimensions _ _ _).mp hn
    have hmore : ∃ g' ∈ before ++ { f with severity } :: after, dimension g' = dimension g := by
      rcases List.mem_append.mp hg with hbefore | hrest
      · exact ⟨g, List.mem_append_left _ hbefore, rfl⟩
      · rcases List.mem_cons.mp hrest with rfl | hafter
        · exact ⟨{ g with severity }, by simp, rfl⟩
        · exact ⟨g, by simp [hafter], rfl⟩
    obtain ⟨g', hg', hdim⟩ := hmore
    refine ⟨_, (get?_dimensions _ _ _).mpr ⟨g', hg', hdim, rfl⟩, grade_le ?_⟩
    rw [partOf_of_dimension hdim]
    exact mean_part_raised (f := f) (g := { f with severity }) rfl hshare g

/-! ## A pack -/

/-- A pack that sets nothing but the rule for critical findings. -/
def standardPack : PolicyPack := ⟨none, none, true, none, none⟩

theorem weightTable_standardPack : WeightTable (weights standardPack) where
  nonneg severity := by cases severity <;> decide +kernel
  critical := by decide +kernel

/-- A finding of which only the agent and the severity matter. -/
def noted (agent : String) (severity : Severity) : Finding :=
  ⟨agent, "", severity, [], "", .empty, agent, none, none, none⟩

theorem a_score_lies_among_two_dimensions :
    ∃ overall dims,
      score (weights standardPack) [noted "LegalAgent" .critical, noted "TechAgent" .low] =
        .ok overall ∧
      dimensions (weights standardPack) [noted "LegalAgent" .critical, noted "TechAgent" .low] =
        .ok dims ∧
      (∃ dim n, dims.get? dim = some n ∧ n ≤ overall.val) ∧
      ∃ dim n, dims.get? dim = some n ∧ overall.val ≤ n := by
  obtain ⟨overall, dims, hscore, hdims, -, -, hlow, hhigh, -⟩ :=
    a_score_lies_among_the_scores_of_its_dimensions weightTable_standardPack
      (by decide : [noted "LegalAgent" .critical, noted "TechAgent" .low] ≠ [])
  exact ⟨overall, dims, hscore, hdims, hlow, hhigh⟩

/-! ## One more finding -/

theorem assess_eq (R : Reader) {pack : PolicyPack} (ht : WeightTable (weights pack))
    (answer : Option (Option String)) (findings : List Finding) (hne : findings ≠ []) :
    ∃ risk, assess R pack answer findings = .ok risk ∧
      risk.overall = grade (weights pack) findings ∧
      risk.verdict = verdict pack (grade (weights pack) findings).val := by
  unfold assess
  rw [if_neg (by simpa using hne), score_eq ht hne, dimensions_eq ht findings]
  exact ⟨_, rfl, rfl, rfl⟩

theorem assess_nil (R : Reader) (pack : PolicyPack) (answer : Option (Option String)) :
    ∃ risk, assess R pack answer [] = .ok risk ∧ risk.overall.val = 0 ∧ risk.verdict = .green :=
  ⟨_, rfl, by decide, rfl⟩

/-- The order from green to red. -/
def lightRank : Light → Nat
  | .green => 0
  | .amber => 1
  | .red => 2

theorem verdict_mono (pack : PolicyPack) {m n : Int} (h : m ≤ n) :
    lightRank (verdict pack m) ≤ lightRank (verdict pack n) := by
  unfold verdict
  obtain ⟨greenMax, amberMax⟩ := pack.thresholds.getD (30, 69)
  dsimp only
  split_ifs <;> first | omega | decide

/-- The sum of the weights is at most as many times the weight of `f` as there are findings. -/
def OutweighsMean (weights : Dict String Int) (f : Finding) (findings : List Finding) : Prop :=
  (findings.map fun g => weightOf weights g.severity).sum ≤
    findings.length * weightOf weights f.severity

theorem mean_le_share_iff {weights : Dict String Int} (ht : WeightTable weights) {f : Finding}
    {findings : List Finding} (hne : findings ≠ []) :
    mean (share weights) findings ≤ share weights f ↔ OutweighsMean weights f findings := by
  have hcritical : (0 : Rat) < (criticalWeight weights : Int) := by exact_mod_cast ht.critical
  rw [mean_le_iff hne, sum_share]
  unfold share OutweighsMean
  rw [div_mul_eq_mul_div, div_le_div_iff_of_pos_right hcritical]
  constructor
  · intro h
    have hint : 100 * (findings.map fun g => weightOf weights g.severity).sum ≤
        100 * weightOf weights f.severity * findings.length := by exact_mod_cast h
    linarith
  · intro h
    have hint : 100 * (findings.map fun g => weightOf weights g.severity).sum ≤
        100 * weightOf weights f.severity * findings.length := by linarith
    exact_mod_cast hint

theorem mean_added (weights : Dict String Int) (before after : List Finding) (added : Finding) :
    mean (share weights) (before ++ added :: after) =
      mean (share weights) (added :: (before ++ after)) :=
  mean_perm List.perm_middle

/-- A low finding that joins a critical one makes a red vendor amber. -/
theorem one_more_finding_can_turn_red_to_amber :
    WeightTable (weights standardPack) ∧
      (score (weights standardPack) [noted "LegalAgent" .critical]).map Subtype.val = .ok 100 ∧
      (score (weights standardPack) [noted "LegalAgent" .critical, noted "TechAgent" .low]).map
        Subtype.val = .ok 53 ∧
      verdict standardPack 100 = .red ∧ verdict standardPack 53 = .amber :=
  ⟨weightTable_standardPack, by decide +kernel, by decide +kernel, by decide, by decide⟩

/-- An added finding draws the score towards its own: the score stays above the lower of the two,
and a finding that weighs no less than the mean makes no vendor greener. -/
theorem an_added_finding_draws_the_score_towards_its_own (R : Reader) (pack : PolicyPack)
    (ht : WeightTable (weights pack)) (answer answerAlone answerLonger : Option (Option String))
    (before after : List Finding) (added : Finding) :
    ∃ shorter alone longer,
      assess R pack answer (before ++ after) = .ok shorter ∧
      assess R pack answerAlone [added] = .ok alone ∧
      assess R pack answerLonger (before ++ added :: after) = .ok longer ∧
      min shorter.overall.val alone.overall.val ≤ longer.overall.val ∧
      (OutweighsMean (weights pack) added (before ++ after) →
        shorter.overall.val ≤ longer.overall.val ∧
        lightRank shorter.verdict ≤ lightRank longer.verdict) := by
  obtain ⟨alone, halone, hgradeAlone, -⟩ :=
    assess_eq R ht answerAlone [added] (by simp)
  obtain ⟨longer, hlonger, hgradeLonger, hverdictLonger⟩ :=
    assess_eq R ht answerLonger (before ++ added :: after) (by simp)
  by_cases hnil : before ++ after = []
  · obtain ⟨shorter, hshorter, hzero, hgreen⟩ := assess_nil R pack answer
    have hle : shorter.overall.val ≤ longer.overall.val := hzero.le.trans longer.overall.2.1
    refine ⟨shorter, alone, longer, ?_, halone, hlonger, (min_le_left _ _).trans hle, fun _ => ?_⟩
    · rw [hnil]
      exact hshorter
    · refine ⟨hle, ?_⟩
      rw [hgreen]
      exact Nat.zero_le _
  · obtain ⟨shorter, hshorter, hgradeShorter, hverdictShorter⟩ := assess_eq R ht answer _ hnil
    have hnotLower : OutweighsMean (weights pack) added (before ++ after) →
        shorter.overall.val ≤ longer.overall.val := by
      intro h
      rw [hgradeShorter, hgradeLonger]
      refine grade_le ?_
      rw [mean_added]
      exact (mean_le_mean_cons_iff hnil).mpr ((mean_le_share_iff ht hnil).mpr h)
    refine ⟨shorter, alone, longer, hshorter, halone, hlonger, ?_, fun h => ⟨hnotLower h, ?_⟩⟩
    · by_cases h : OutweighsMean (weights pack) added (before ++ after)
      · exact (min_le_left _ _).trans (hnotLower h)
      · -- The new mean lies between the share of the finding and the old mean.
        have hshare : share (weights pack) added ≤ mean (share (weights pack)) (before ++ after) :=
          (not_le.mp fun hle => h ((mean_le_share_iff ht hnil).mp hle)).le
        refine (min_le_right _ _).trans ?_
        rw [hgradeAlone, hgradeLonger]
        refine grade_le ?_
        rw [mean_added, mean_singleton]
        exact (head_le_mean_cons_iff hnil).mpr hshare
    · rw [hverdictShorter, hverdictLonger, ← hgradeShorter, ← hgradeLonger]
      exact verdict_mono pack (hnotLower h)

/-- A reader that finds no JSON in any text. -/
def noJson : Reader where
  loads _ := .error (.decode "Expecting value")
  reprStr s := s
  intOfText _ := .error ⟨"ValueError", "invalid literal for int()", false⟩
  isWord c := c.isAlphanum
  intOrNone _ := .ok none
  remediationItem _ := none
  dumpFindings _ := .ok "[]"

theorem a_second_critical_finding_lowers_no_score :
    ∃ shorter longer,
      assess noJson standardPack none [noted "LegalAgent" .critical] = .ok shorter ∧
      assess noJson standardPack none
        [noted "LegalAgent" .critical, noted "TechAgent" .critical] = .ok longer ∧
      shorter.overall.val ≤ longer.overall.val ∧
      lightRank shorter.verdict ≤ lightRank longer.verdict := by
  obtain ⟨shorter, -, longer, hshorter, -, hlonger, -, hweight⟩ :=
    an_added_finding_draws_the_score_towards_its_own noJson standardPack weightTable_standardPack
      none none none [noted "LegalAgent" .critical] [] (noted "TechAgent" .critical)
  exact ⟨shorter, longer, hshorter, hlonger, hweight (by unfold OutweighsMean; decide +kernel)⟩

end RiskScoreAgent

end orchestra.tprm.verdicts
