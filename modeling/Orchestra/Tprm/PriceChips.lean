-- The price chip of a quality-of-earnings pass (`agents/specialists/financial.py`), and what the
-- policy adds up over its findings (`agents/policy.py`).
import Mathlib.Algebra.BigOperators.Ring.List
import Orchestra.Lib.Batch
import Orchestra.Lib.Fallible
import Orchestra.Tprm.Specialists
import Orchestra.Tprm.Verdicts

open dicts texts decimals batches fallible orchestra.tprm.schemas orchestra.tprm.state
open orchestra.tprm.answers orchestra.tprm.specialists orchestra.tprm.specialists.FinancialAgent
open orchestra.tprm.verdicts.PolicyAgent (upperExposure)

namespace orchestra.tprm.price_chips

/-! ## Answers as the prompt asks for them -/

/-- A row with an adjustment. -/
structure AdjustmentRow (R : Reader) where
  members : List (String × Json)
  delta : Int
  notSummary : isSummary members = false
  hasDelta : number R members "delta_usd" = .ok delta
  hasPage : ∃ page, R.intOrNone ((Json.get? members "citation_page").getD .null) = .ok page
  hasRationale : ∀ v, Json.get? members "rationale" = some v → ∃ s, v = .str s

/-- The row with the sums. -/
structure SummaryRow (R : Reader) where
  members : List (String × Json)
  reported : Int
  adjusted : Int
  delta : Int
  summary : isSummary members = true
  hasReported : number R members "reported_ebitda_usd" = .ok reported
  hasAdjusted : number R members "qoe_adjusted_ebitda_usd" = .ok adjusted
  hasDelta : number R members "delta_usd" = .ok delta

/-- Adjustments of one sign, and among them their sum. -/
structure QoeAnswer (R : Reader) where
  before : List (AdjustmentRow R)
  summary : SummaryRow R
  after : List (AdjustmentRow R)
  oneSign : (∀ row ∈ before ++ after, 0 ≤ row.delta) ∨ ∀ row ∈ before ++ after, row.delta ≤ 0
  addsUp : |summary.delta| = |((before ++ after).map AdjustmentRow.delta).sum|

namespace QoeAnswer

variable {R : Reader}

def adjustments (answer : QoeAnswer R) : List (AdjustmentRow R) := answer.before ++ answer.after

def rows (answer : QoeAnswer R) : List Json :=
  answer.before.map (fun row => .dict row.members) ++ .dict answer.summary.members ::
    answer.after.map fun row => .dict row.members

/-- The sizes of the adjustments. -/
def sizes (answer : QoeAnswer R) : List Rat := answer.adjustments.map fun row => |(row.delta : Rat)|

/-- The sizes add up to the size of the sum. -/
theorem sum_sizes (answer : QoeAnswer R) : answer.sizes.sum = |(answer.summary.delta : Rat)| := by
  have hsign : (∀ x ∈ answer.adjustments.map AdjustmentRow.delta, 0 ≤ x) ∨
      ∀ x ∈ answer.adjustments.map AdjustmentRow.delta, x ≤ 0 := by
    rw [List.forall_mem_map, List.forall_mem_map]
    exact answer.oneSign
  have hint := (sum_abs hsign).trans answer.addsUp.symm
  have hcast : answer.sizes =
      ((answer.adjustments.map AdjustmentRow.delta).map fun x => |x|).map (Int.castAddHom Rat) := by
    simp [sizes, Function.comp_def]
  rw [hcast, ← map_list_sum, hint]
  exact Int.cast_abs

end QoeAnswer

/-! ## The numbers -/

/-- The value of the company over its adjusted earnings, at most 20 of them, and 8 where one of
the two is missing. -/
def impliedMultiple (scope : Option MAScope) (adjusted : Int) : Rat :=
  let value := (scope.bind (·.enterpriseValueUsd)).getD 0
  if value ≠ 0 ∧ 0 < adjusted then min 20 (value / adjusted : Rat) else 8

/-- None of the numbers that make the chip of this size is too large for a float. -/
structure Fits (scope : Option MAScope) (adjusted : Int) (total : Rat) : Prop where
  ratio : (scope.bind (·.enterpriseValueUsd)).getD 0 ≠ 0 ∧ 0 < adjusted →
    |(((scope.bind (·.enterpriseValueUsd)).getD 0 : Int) / adjusted : Rat)| < floatLimit
  size : total < floatLimit
  product : |total * impliedMultiple scope adjusted| < floatLimit

theorem asFloat_ok_iff {message : String} {x y : Rat} :
    asFloat message x = .ok y ↔ |x| < floatLimit ∧ y = x := by
  unfold asFloat
  split_ifs with h
  · constructor
    · intro hok
      exact ⟨h, (Except.ok.inj hok).symm⟩
    · intro hok
      rw [hok.2]
  · constructor
    · exact nofun
    · intro hok
      exact absurd hok.1 h

theorem priced_ok_iff {n chip : Int} {multiple : Rat} : priced n multiple = .ok chip ↔
    |(n : Rat)| < floatLimit ∧ |(|(n : Rat)| * multiple)| < floatLimit ∧
      chip = truncate (|(n : Rat)| * multiple) := by
  unfold priced
  rw [bind_eq_ok_iff]
  simp only [bind_eq_ok_iff, asFloat_ok_iff, Except.ok.injEq, abs_abs]
  constructor
  · rintro ⟨_, ⟨hsize, rfl⟩, _, ⟨hproduct, rfl⟩, rfl⟩
    exact ⟨hsize, hproduct, rfl⟩
  · rintro ⟨hsize, hproduct, rfl⟩
    exact ⟨_, ⟨hsize, rfl⟩, _, ⟨hproduct, rfl⟩, rfl⟩

/-- The sums of a summary row, where no number is too large. -/
theorem sumsOf_ok_iff {R : Reader} {scope : Option MAScope} (row : SummaryRow R) {sums : Sums} :
    sumsOf R scope (some row.members) = .ok sums ↔
      Fits scope row.adjusted |(row.delta : Rat)| ∧
        sums = ⟨row.reported, row.adjusted, row.delta, impliedMultiple scope row.adjusted,
          truncate (|(row.delta : Rat)| * impliedMultiple scope row.adjusted)⟩ := by
  unfold sumsOf
  simp only [bind_eq_ok_iff, row.hasReported, row.hasAdjusted, row.hasDelta, Except.ok.injEq,
    exists_eq_left']
  by_cases h : (scope.bind (·.enterpriseValueUsd)).getD 0 ≠ 0 ∧ 0 < row.adjusted
  · have hmultiple : impliedMultiple scope row.adjusted =
        min 20 (((scope.bind (·.enterpriseValueUsd)).getD 0 : Int) / row.adjusted : Rat) := if_pos h
    rw [if_pos h]
    simp only [bind_eq_ok_iff, asFloat_ok_iff, priced_ok_iff, Except.ok.injEq, exists_eq_left',
      hmultiple]
    constructor
    · rintro ⟨_, ⟨hratio, rfl⟩, _, ⟨hsize, hproduct, rfl⟩, rfl⟩
      exact ⟨⟨fun _ => hratio, hsize, by rwa [hmultiple]⟩, rfl⟩
    · rintro ⟨hfits, rfl⟩
      have hproduct := hfits.product
      rw [hmultiple] at hproduct
      exact ⟨_, ⟨hfits.ratio h, rfl⟩, _, ⟨hfits.size, hproduct, rfl⟩, rfl⟩
  · have hmultiple : impliedMultiple scope row.adjusted = 8 := if_neg h
    rw [if_neg h]
    simp only [bind_eq_ok_iff, priced_ok_iff, Except.ok.injEq, exists_eq_left', hmultiple]
    constructor
    · rintro ⟨_, ⟨hsize, hproduct, rfl⟩, rfl⟩
      exact ⟨⟨fun hc => absurd hc h, hsize, by rwa [hmultiple]⟩, rfl⟩
    · rintro ⟨hfits, rfl⟩
      have hproduct := hfits.product
      rw [hmultiple] at hproduct
      exact ⟨_, ⟨hfits.size, hproduct, rfl⟩, rfl⟩

/-! ## The findings of the rows -/

/-- A row with an adjustment becomes a finding with its own price. -/
theorem adjustment_of_row {R : Reader} {sums : Sums} (row : AdjustmentRow R)
    (hsize : |(row.delta : Rat)| < floatLimit)
    (hproduct : |(|(row.delta : Rat)| * sums.multiple)| < floatLimit) :
    ∃ f, rowFinding R sums (.dict row.members) = .ok f ∧
      upperExposure f = truncate (|(row.delta : Rat)| * sums.multiple) := by
  obtain ⟨page, hpage⟩ := row.hasPage
  have hrationale : ∃ s, strField ((Json.get? row.members "rationale").getD (.str
      ("QoE adjustment: " ++ ((Json.get? row.members "adjustment").getD
        (.str "qoe-adjustment")).text R))) = .ok s := by
    cases hget : Json.get? row.members "rationale" with
    | none => exact ⟨_, rfl⟩
    | some v =>
      obtain ⟨s, rfl⟩ := row.hasRationale v hget
      exact ⟨s, rfl⟩
  obtain ⟨summary, hsummary⟩ := hrationale
  have hcitation : citationOf R "qoe-pass"
      ((Json.get? row.members "citation_page").getD .null) (.str "") =
        .ok ⟨"qoe-pass", none, page, none, ""⟩ := by
    unfold citationOf
    rw [hpage]
    rfl
  unfold rowFinding adjustment
  simp only [row.notSummary, Bool.false_eq_true, if_false, row.hasDelta, hcitation, hsummary,
    bind, Except.bind]
  by_cases hzero : row.delta = 0
  · rw [if_neg (not_not.mpr hzero)]
    refine ⟨_, rfl, ?_⟩
    rw [hzero]
    simp [truncate, upperExposure]
  · rw [if_pos hzero, priced_ok_iff.mpr ⟨hsize, hproduct, rfl⟩]
    exact ⟨_, rfl, rfl⟩

theorem findings_of_adjustments {R : Reader} {sums : Sums} (rows : List (AdjustmentRow R))
    (hsize : ∀ row ∈ rows, |(row.delta : Rat)| < floatLimit)
    (hproduct : ∀ row ∈ rows, |(|(row.delta : Rat)| * sums.multiple)| < floatLimit) :
    ∃ found, (rows.map fun row => Json.dict row.members).mapM (rowFinding R sums) = .ok found ∧
      found.map upperExposure =
        rows.map fun row => truncate (|(row.delta : Rat)| * sums.multiple) := by
  induction rows with
  | nil => exact ⟨[], rfl, rfl⟩
  | cons row rest ih =>
    obtain ⟨f, hf, hprice⟩ := adjustment_of_row row (hsize row List.mem_cons_self)
      (hproduct row List.mem_cons_self)
    obtain ⟨found, hfound, hprices⟩ := ih (fun r hr => hsize r (List.mem_cons_of_mem _ hr))
      fun r hr => hproduct r (List.mem_cons_of_mem _ hr)
    refine ⟨f :: found, ?_, by rw [List.map_cons, List.map_cons, hprice, hprices]⟩
    rw [List.map_cons, List.mapM_cons, hf, hfound]
    rfl

theorem upperExposure_sumFinding (sums : Sums) (members : List (String × Json)) :
    upperExposure (sumFinding sums members) = max 0 sums.chip := by
  unfold upperExposure sumFinding
  dsimp only
  split_ifs with h
  · exact (max_eq_right h.le).symm
  · exact (max_eq_left (not_lt.mp h)).symm

/-- The rows in their order, and the sum of their prices. -/
theorem findings_of_rows {R : Reader} (answer : QoeAnswer R) (sums : Sums)
    (hsize : ∀ row ∈ answer.adjustments, |(row.delta : Rat)| < floatLimit)
    (hproduct : ∀ row ∈ answer.adjustments,
      |(|(row.delta : Rat)| * sums.multiple)| < floatLimit) :
    ∃ found, answer.rows.mapM (rowFinding R sums) = .ok found ∧
      sumFinding sums answer.summary.members ∈ found ∧
      (found.map upperExposure).sum = max 0 sums.chip +
        (answer.sizes.map fun x => truncate (x * sums.multiple)).sum := by
  unfold QoeAnswer.adjustments at hsize hproduct
  rw [List.forall_mem_append] at hsize hproduct
  obtain ⟨first, hfirst, hpricesFirst⟩ := findings_of_adjustments answer.before hsize.1 hproduct.1
  obtain ⟨later, hlater, hpricesLater⟩ := findings_of_adjustments answer.after hsize.2 hproduct.2
  have hsummary : rowFinding R sums (.dict answer.summary.members) =
      .ok (sumFinding sums answer.summary.members) := if_pos answer.summary.summary
  refine ⟨first ++ sumFinding sums answer.summary.members :: later, ?_, by simp, ?_⟩
  · unfold QoeAnswer.rows
    rw [List.mapM_append, List.mapM_cons, hfirst, hsummary, hlater]
    rfl
  · unfold QoeAnswer.sizes QoeAnswer.adjustments
    rw [List.map_append, List.map_cons, List.sum_append, List.sum_cons, hpricesFirst, hpricesLater,
      upperExposure_sumFinding, List.map_append, List.map_append, List.sum_append]
    simp only [List.map_map, Function.comp_def]
    exact add_left_comm _ _ _

/-! ## The rounding -/

/-- The prices of the parts and the price of the whole add up to the latter, up to one for each
part, only where the parts are priced at nothing but their roundings. -/
theorem counted_twice_iff (l : List Rat) (m : Rat) (h : ∀ x ∈ l, 0 ≤ x) :
    |max 0 (truncate (l.sum * m)) + (l.map fun x => truncate (x * m)).sum -
        truncate (l.sum * m)| ≤ l.length ↔
      (l.map fun x => ⌊x * m⌋).sum ≤ l.length := by
  have hsum : 0 ≤ l.sum := List.sum_nonneg h
  rcases le_total 0 m with hm | hm
  · have hparts : (l.map fun x => truncate (x * m)) = l.map fun x => ⌊x * m⌋ :=
      List.map_congr_left fun x hx => truncate_of_nonneg (mul_nonneg (h x hx) hm)
    have hnonneg : 0 ≤ (l.map fun x => ⌊x * m⌋).sum := by
      refine List.sum_nonneg fun n hn => ?_
      obtain ⟨x, hx, rfl⟩ := List.mem_map.mp hn
      exact Int.floor_nonneg.mpr (mul_nonneg (h x hx) hm)
    have hwhole : 0 ≤ truncate (l.sum * m) := by
      rw [truncate_of_nonneg (mul_nonneg hsum hm)]
      exact Int.floor_nonneg.mpr (mul_nonneg hsum hm)
    rw [max_eq_right hwhole, hparts, add_sub_cancel_left, abs_of_nonneg hnonneg]
  · -- With a negative multiple the summary has no exposure, and the parts make up the chip.
    have hk : 0 ≤ -m := neg_nonneg.mpr hm
    have hnegated : ∀ x, 0 ≤ x → truncate (x * m) = -⌊x * -m⌋ := by
      intro x hx
      rw [← truncate_of_nonneg (mul_nonneg hx hk), ← truncate_neg, mul_neg, neg_neg]
    have hparts : (l.map fun x => truncate (x * m)).sum =
        -((l.map (· * -m)).map Int.floor).sum := by
      have hmap : (l.map fun x => truncate (x * m)) =
          ((l.map (· * -m)).map Int.floor).map (negAddMonoidHom (α := Int)) := by
        rw [List.map_map, List.map_map]
        exact List.map_congr_left fun x hx => hnegated x (h x hx)
      rw [hmap, ← map_list_sum]
      rfl
    have hwhole : truncate (l.sum * m) = -⌊(l.map (· * -m)).sum⌋ := by
      rw [hnegated _ hsum, List.sum_map_mul_right]
      simp
    have hlow := sum_floor_le (l.map (· * -m))
    have hhigh := floor_sum_le (l.map (· * -m))
    have hnonneg : 0 ≤ ⌊(l.map (· * -m)).sum⌋ := by
      rw [List.sum_map_mul_right]
      exact Int.floor_nonneg.mpr (mul_nonneg (by simpa using hsum) hk)
    have hfloors : (l.map fun x => ⌊x * m⌋).sum ≤ 0 := by
      have hbound := List.sum_le_card_nsmul (l.map fun x => ⌊x * m⌋) 0 ?_
      · simpa using hbound
      · intro n hn
        obtain ⟨x, hx, rfl⟩ := List.mem_map.mp hn
        exact Int.floor_nonpos (mul_nonpos_of_nonneg_of_nonpos (h x hx) hm)
    rw [List.length_map] at hhigh
    rw [hparts, hwhole, max_eq_left (by omega), abs_le]
    omega

/-! ## The findings about documents -/

theorem exposure_of_findingOf {R : Reader} {form : ItemForm} {doc : String} {item : Json}
    {f : Finding} (h : findingOf R form doc item = .ok f) : upperExposure f = 0 := by
  cases item with
  | dict members =>
    unfold findingOf at h
    obtain ⟨citation, -, h⟩ := (bind_eq_ok_iff _ _ _).mp h
    obtain ⟨category, -, h⟩ := (bind_eq_ok_iff _ _ _).mp h
    obtain ⟨summary, -, h⟩ := (bind_eq_ok_iff _ _ _).mp h
    cases h
    rfl
  | _ => cases h

theorem exposure_of_readAnswer {R : Reader} {doc text : String} {found : List Finding}
    (h : readAnswer R doc text = .ok found) : ∀ f ∈ found, upperExposure f = 0 := by
  unfold readAnswer at h
  split at h
  · cases h
    simp
  · split at h
    · cases h
      simp [parseError, newFinding, upperExposure]
    · cases h
    · rename_i items _
      have hitems : (items.mapM (findingOf R form doc)) = .ok found := by
        unfold findingsOf lift at h
        cases hmap : items.mapM (findingOf R form doc) with
        | error e =>
          rw [hmap] at h
          cases h
        | ok found' =>
          rw [hmap] at h
          cases h
          rfl
      rw [mapM_ok_iff] at hitems
      intro f hf
      have hmem : (.ok f : Except Raised Finding) ∈ items.map (findingOf R form doc) := by
        rw [hitems]
        exact List.mem_map_of_mem hf
      obtain ⟨item, -, hitem⟩ := List.mem_map.mp hmem
      exact exposure_of_findingOf hitem
    · cases h
      simp [parseError, newFinding, upperExposure]

/-- The findings about a document carry no exposure. -/
theorem exposure_of_review {W : Outside} {state : TPRMState} {doc : String} {found : List Finding}
    (h : review W state doc = .ok found) : ∀ f ∈ found, upperExposure f = 0 := by
  unfold review at h
  split at h
  · cases h
    simp
  · obtain ⟨asked, -, h⟩ := (bind_eq_ok_iff _ _ _).mp h
    cases asked with
    | none =>
      cases h
      simp
    | some asked =>
      obtain ⟨text, -, h⟩ := (bind_eq_ok_iff _ _ _).mp h
      exact exposure_of_readAnswer h

theorem exposure_of_documents {W : Outside} {state : TPRMState} {docs : List String}
    {each : List (List Finding)} (h : docs.mapM (review W state) = .ok each) :
    (each.flatten.map upperExposure).sum = 0 := by
  rw [mapM_ok_iff] at h
  refine List.sum_eq_zero fun n hn => ?_
  obtain ⟨f, hf, rfl⟩ := List.mem_map.mp hn
  obtain ⟨found, hfound, hmem⟩ := List.mem_flatten.mp hf
  have hok : (.ok found : Except Failure (List Finding)) ∈ docs.map (review W state) := by
    rw [h]
    exact List.mem_map_of_mem hfound
  obtain ⟨doc, -, hdoc⟩ := List.mem_map.mp hok
  exact exposure_of_review hdoc f hmem

/-! ## The price -/

/-- The agent reports a summary with this chip, and the exposures that the policy adds up come to
the chip, up to one dollar for each adjustment. -/
def PricedOnce (W : Outside) (state : TPRMState) (answer : QoeAnswer W.reader) : Prop :=
  ∃ report sums, emitReport W state = .ok report ∧
    sumsOf W.reader state.maScope (some answer.summary.members) = .ok sums ∧
    sumFinding sums answer.summary.members ∈ report.findings ∧
    |(report.findings.map upperExposure).sum - sums.chip| ≤ answer.adjustments.length

/-- The adjustments together are priced at one dollar each at most. -/
def Trifling (scope : Option MAScope) {R : Reader} (answer : QoeAnswer R) : Prop :=
  (answer.sizes.map fun x => ⌊x * impliedMultiple scope answer.summary.adjusted⌋).sum ≤
    answer.adjustments.length

theorem earnings_eq {W : Outside} {state : TPRMState} {found : List Finding} {json text : String}
    {rows : List Json} (hjson : W.reader.dumpFindings found = .ok json)
    (hcall : callLlm W ⟨FinancialAgent.name, state.subjectName, .earnings json, false⟩ = .ok text)
    (htext : strip text ≠ "") (hrows : rowsOf W.reader text = .ok rows) :
    earnings W state found = lift (do
      let sums ← sumsOf W.reader state.maScope (summaryRow rows)
      rows.mapM (rowFinding W.reader sums)) := by
  unfold earnings
  rw [hjson]
  change (callLlm W ⟨FinancialAgent.name, state.subjectName, .earnings json, false⟩ >>= fun text =>
    if strip text = "" then Except.ok [] else lift (do
      let rows ← rowsOf W.reader text
      let sums ← sumsOf W.reader state.maScope (summaryRow rows)
      rows.mapM (rowFinding W.reader sums))) = _
  rw [hcall]
  change (if strip text = "" then _ else _) = _
  rw [if_neg htext, hrows]
  rfl

theorem summaryRow_rows {R : Reader} (answer : QoeAnswer R) :
    summaryRow answer.rows = some answer.summary.members := by
  have hskip : ∀ (l : List (AdjustmentRow R)) (rest : List Json),
      summaryRow (l.map (fun row => Json.dict row.members) ++ rest) = summaryRow rest := by
    intro l rest
    induction l with
    | nil => rfl
    | cons row l ih =>
      rw [List.map_cons, List.cons_append, ← ih]
      change (if isSummary row.members = true then _ else _) = _
      rw [row.notSummary]
      rfl
  unfold QoeAnswer.rows
  rw [hskip]
  exact if_pos answer.summary.summary

theorem emitReport_eq {W : Outside} {state : TPRMState} {each : List (List Finding)}
    (hmode : state.mode = .ma)
    (hdocs : (docsFor FinancialAgent.name state).mapM (review W state) = .ok each)
    (hfound : each.flatten ≠ []) :
    emitReport W state = (earnings W state each.flatten).map fun later => ⟨each, later⟩ := by
  unfold emitReport
  rw [hdocs]
  change (if state.mode = .ma ∧ each.flatten ≠ [] then _ else _) = _
  rw [if_pos ⟨hmode, hfound⟩]
  cases earnings W state each.flatten <;> rfl

/-- Parts of numbers that fit do fit. -/
theorem Fits.part {scope : Option MAScope} {R : Reader} {answer : QoeAnswer R}
    (hfits : Fits scope answer.summary.adjusted |(answer.summary.delta : Rat)|)
    {row : AdjustmentRow R} (hrow : row ∈ answer.adjustments) :
    |(row.delta : Rat)| < floatLimit ∧
      |(|(row.delta : Rat)| * impliedMultiple scope answer.summary.adjusted)| < floatLimit := by
  have hle : |(row.delta : Rat)| ≤ |(answer.summary.delta : Rat)| := by
    rw [← answer.sum_sizes]
    refine List.single_le_sum (fun x hx => ?_) _ (List.mem_map_of_mem hrow)
    obtain ⟨other, -, rfl⟩ := List.mem_map.mp hx
    exact abs_nonneg _
  refine ⟨hle.trans_lt hfits.size, lt_of_le_of_lt ?_ hfits.product⟩
  rw [abs_mul, abs_mul, abs_abs, abs_abs]
  exact mul_le_mul_of_nonneg_right hle (abs_nonneg _)

/-- The members of a row with one adjustment, and of a row with its sum. -/
def salaryRow : List (String × Json) :=
  [("adjustment", .str "owner_salary"), ("delta_usd", .int 100000)]

def sumRow : List (String × Json) :=
  [("adjustment", .str "qoe_summary"), ("reported_ebitda_usd", .int 1000000),
    ("qoe_adjusted_ebitda_usd", .int 900000), ("delta_usd", .int 100000)]

/-- A model that finds one metric in a filing, and one adjustment in the earnings. -/
def oneAdjustment : Outside where
  reader := {
    loads := fun text =>
      if text = "[metric]" then .ok (.list [.dict [("metric", .str "ebitda")]])
      else .ok (.list [.dict salaryRow, .dict sumRow])
    reprStr := id
    intOfText := fun _ => .error ⟨"ValueError", "invalid literal for int()", false⟩
    isWord := Char.isAlphanum
    intOrNone := fun _ => .ok none
    remediationItem := fun _ => none
    dumpFindings := fun _ => .ok "[]" }
  complete request := match request.question with
    | .document .. => .ok ⟨some "[metric]", false⟩
    | .earnings _ => .ok ⟨some "[rows]", false⟩
  readUri _ := .ok none

/-- A deal with one filing. -/
def oneFiling : TPRMState :=
  { TPRMState.start .ma "Acme" "packet" none with
    fileUris := Dict.ofList [("10-k.pdf", "https://files/1")]
    routing := Dict.ofList [("FinancialAgent", ["10-k.pdf"])] }

/-- The chip is $800,000, and the exposures add up to $1,600,000. -/
theorem a_chip_is_counted_twice :
    (emitReport oneAdjustment oneFiling).toOption.map (fun report =>
      ((report.findings.map upperExposure).sum, report.others.map (·.exposureUsdRange),
        report.others.map (·.summary))) =
      some (1600000, [some (0, 800000), some (0, 800000)],
        ["QoE adjustment: owner_salary", "QoE normalization: reported EBITDA $1,000,000 → " ++
          "adjusted $900,000 (delta $100,000); price chip @ 8.0x = $800,000"]) := by
  decide +kernel

/-- An adjustment is priced once if and only if the numbers fit and its rows come to nothing but
their roundings: the policy adds up the summary and the rows. -/
theorem priced_once_iff {W : Outside} {state : TPRMState} (answer : QoeAnswer W.reader)
    {each : List (List Finding)} {json text : String} (hmode : state.mode = .ma)
    (hdocs : (docsFor FinancialAgent.name state).mapM (review W state) = .ok each)
    (hfound : each.flatten ≠ []) (hjson : W.reader.dumpFindings each.flatten = .ok json)
    (hcall : callLlm W ⟨FinancialAgent.name, state.subjectName, .earnings json, false⟩ = .ok text)
    (htext : strip text ≠ "") (hrows : rowsOf W.reader text = .ok answer.rows) :
    PricedOnce W state answer ↔
      Fits state.maScope answer.summary.adjusted |(answer.summary.delta : Rat)| ∧
        Trifling state.maScope answer := by
  have hreport := emitReport_eq (W := W) hmode hdocs hfound
  rw [earnings_eq hjson hcall htext hrows, summaryRow_rows] at hreport
  have hnonneg : ∀ x ∈ answer.sizes, 0 ≤ x := by
    intro x hx
    obtain ⟨row, -, rfl⟩ := List.mem_map.mp hx
    exact abs_nonneg _
  have hlength : answer.sizes.length = answer.adjustments.length := List.length_map _
  have htwice := counted_twice_iff answer.sizes
    (impliedMultiple state.maScope answer.summary.adjusted) hnonneg
  rw [answer.sum_sizes, hlength] at htwice
  by_cases hfits : Fits state.maScope answer.summary.adjusted |(answer.summary.delta : Rat)|
  · obtain ⟨found, hrun, hmem, hprices⟩ := findings_of_rows answer
      ⟨answer.summary.reported, answer.summary.adjusted, answer.summary.delta,
        impliedMultiple state.maScope answer.summary.adjusted,
        truncate (|(answer.summary.delta : Rat)| *
          impliedMultiple state.maScope answer.summary.adjusted)⟩
      (fun row hrow => (hfits.part hrow).1) fun row hrow => (hfits.part hrow).2
    have hsums := (sumsOf_ok_iff answer.summary).mpr ⟨hfits, rfl⟩
    rw [hsums] at hreport
    change _ = Except.map _ (lift (answer.rows.mapM _)) at hreport
    rw [hrun] at hreport
    have htotal : ((each.flatten ++ found).map upperExposure).sum =
        (found.map upperExposure).sum := by
      rw [List.map_append, List.sum_append, exposure_of_documents hdocs, zero_add]
    unfold Trifling
    rw [← htwice, ← hprices, ← htotal]
    constructor
    · rintro ⟨report, sums, hok, hsums', -, hbound⟩
      rw [hsums] at hsums'
      rw [hreport] at hok
      cases hsums'
      cases hok
      exact ⟨hfits, hbound⟩
    · rintro ⟨-, hbound⟩
      exact ⟨_, _, hreport, hsums, List.mem_append_right _ hmem, hbound⟩
  · refine ⟨?_, fun hboth => absurd hboth.1 hfits⟩
    rintro ⟨report, sums, -, hsums, -⟩
    exact absurd ((sumsOf_ok_iff answer.summary).mp hsums).1 hfits

/-- The two rows as an answer. -/
def salaryAnswer : QoeAnswer oneAdjustment.reader where
  before := [⟨salaryRow, 100000, by decide +kernel, rfl, ⟨none, rfl⟩, fun v hv => by cases hv⟩]
  summary := ⟨sumRow, 1000000, 900000, 100000, by decide +kernel, rfl, rfl, rfl⟩
  after := []
  oneSign := .inl (by simp)
  addsUp := by simp

theorem review_oneFiling :
    (docsFor FinancialAgent.name oneFiling).mapM (review oneAdjustment oneFiling) =
      .ok [[{ newFinding "FinancialAgent" "ebitda" .low "" with
        evidence := [⟨"10-k.pdf", none, none, none, ""⟩]
        raw := Dict.ofList [("metric", .str "ebitda")] }]] := by
  rfl

theorem an_owner_salary_is_not_priced_once : ¬ PricedOnce oneAdjustment oneFiling salaryAnswer := by
  have htrifling : ¬ Trifling oneFiling.maScope salaryAnswer := by
    unfold Trifling
    decide +kernel
  have hiff := priced_once_iff salaryAnswer (rfl : oneFiling.mode = .ma) review_oneFiling
    (by decide) rfl rfl (by decide +kernel) rfl
  exact fun h => htrifling (hiff.mp h).2

end orchestra.tprm.price_chips
