-- One bad document among those of an agent: which answers leave the findings of the other
-- documents alone, and which ones take all findings of the agent away.
import Orchestra.Lib.Batch
import Orchestra.Lib.Fallible
import Orchestra.Tprm.Specialists

open dicts texts batches fallible orchestra.tprm.schemas orchestra.tprm.state orchestra.tprm.answers
open orchestra.tprm.specialists

namespace orchestra.tprm.isolation

/-! ## The agents that go through their documents -/

inductive Reviewer
  | legal
  | financial
deriving DecidableEq, Repr

namespace Reviewer

def name : Reviewer → String
  | legal => LegalAgent.name
  | financial => FinancialAgent.name

def form : Reviewer → ItemForm
  | legal => LegalAgent.form
  | financial => FinancialAgent.form

def emitReport : Reviewer → Outside → TPRMState → Except Failure Report
  | legal => LegalAgent.emitReport
  | financial => FinancialAgent.emitReport

/-- The body of the loop. -/
def review : Reviewer → Outside → TPRMState → String → Except Failure (List Finding)
  | legal => LegalAgent.review
  | financial => FinancialAgent.review

/-- What is asked about a document, if anything. -/
def question (A : Reviewer) (W : Outside) (doc uri : String) : Except Failure (Option Question) :=
  match A with
  | legal => (LegalAgent.question W doc uri).map some
  | financial => FinancialAgent.question W doc uri

def readAnswer : Reviewer → Reader → String → String → Except Failure (List Finding)
  | legal => LegalAgent.readAnswer
  | financial => FinancialAgent.readAnswer

/-- The text that the agent is told about a document, if it asks. -/
def told (A : Reviewer) (W : Outside) (s : TPRMState) (doc : String) :
    Except Failure (Option String) :=
  match uriOf s doc with
  | none => .ok none
  | some uri => do
    match ← A.question W doc uri with
    | none => .ok none
    | some asked => (callLlm W ⟨A.name, s.subjectName, asked, false⟩).map some

/-- What comes after the loop. -/
def closing (A : Reviewer) (W : Outside) (s : TPRMState) (each : List (List Finding)) :
    Except Failure (List Finding) :=
  match A with
  | legal => .ok []
  | financial =>
    if s.mode = .ma ∧ each.flatten ≠ [] then FinancialAgent.earnings W s each.flatten else .ok []

/-- What the wrapped agent returns, by document. -/
def returned (A : Reviewer) (W : Outside) (s : TPRMState) : Report :=
  match A.emitReport W s with
  | .ok report => report
  | .error f =>
    ⟨(docsFor A.name s).map (fun _ => []), safeSpecialist A.name (run A.name (.error f))⟩

theorem findings_returned (A : Reviewer) (W : Outside) (s : TPRMState) :
    (A.returned W s).findings = wrapped A.name (A.emitReport W s) := by
  unfold returned wrapped
  rcases A.emitReport W s with f | report
  · simp [Report.findings, Except.map]
  · simp [Except.map, run, safeSpecialist]

theorem emitReport_eq (A : Reviewer) (W : Outside) (s : TPRMState) :
    A.emitReport W s = (outcome (A.review W s) (A.closing W s) (docsFor A.name s)).map
      (fun done => ⟨done.1, done.2⟩) := by
  unfold outcome
  cases A with
  | legal =>
    show LegalAgent.emitReport W s = _
    unfold LegalAgent.emitReport
    show (docsFor LegalAgent.name s).mapM (LegalAgent.review W s) >>= _ = _
    rcases h : (docsFor LegalAgent.name s).mapM (LegalAgent.review W s) with e | each <;>
      simp [name, review, closing, bind, Except.bind, Except.map, h]
  | financial =>
    show FinancialAgent.emitReport W s = _
    unfold FinancialAgent.emitReport
    rcases h : (docsFor FinancialAgent.name s).mapM (FinancialAgent.review W s) with e | each
    · simp [name, review, bind, Except.bind, Except.map, h]
    · simp only [name, review, closing, bind, Except.bind, h]
      split
      · rcases FinancialAgent.earnings W s each.flatten with e | later <;> rfl
      · rfl

theorem perDocument_returned (A : Reviewer) (W : Outside) (s : TPRMState) :
    (A.returned W s).perDocument =
      kept (A.review W s) (A.closing W s) (docsFor A.name s) := by
  unfold returned kept
  rw [emitReport_eq]
  rcases outcome (A.review W s) (A.closing W s) (docsFor A.name s) with f | done <;> rfl

/-! ## Answers -/

/-- An item that a finding can be made of: an object whose fields pass. -/
structure Passes (R : Reader) (form : ItemForm) (members : List (String × Json)) : Prop where
  page : ∃ page, R.intOrNone ((Json.get? members "citation_page").getD .null) = .ok page
  snippet : ∃ s, (form.snippetKey.bind (Json.get? members)).getD (.str "") = .str s
  category : ∃ s, (Json.get? members form.categoryKey).getD (.str form.defaultCategory) = .str s
  summary : ∃ s, (Json.get? members "summary").getD (.str "") = .str s

/-- The items that the agent takes an answer for. The financial one looks at lists only. -/
def Holds (A : Reviewer) (v : Json) (items : List Json) : Prop :=
  match A with
  | legal => v.iterate = .ok items
  | financial => v = .list items

/-- The text leaves the loop running: it is blank, or no JSON, or its items are objects whose
fields pass. A list is all that the financial agent takes, and it notes down anything else. -/
def Harmless (A : Reviewer) (R : Reader) (text : String) : Prop :=
  strip text = "" ∨
    (∃ message, R.loads (stripJsonFences R text) = .error (.decode message)) ∨
    ∃ v, R.loads (stripJsonFences R text) = .ok v ∧
      ((∃ items, A.Holds v items ∧
          ∀ item ∈ items, ∃ members, item = .dict members ∧ Passes R A.form members) ∨
        A = .financial ∧ ∀ items, v ≠ .list items)

/-- The text has no findings in it: it is blank, or a list without items. -/
def Empty (A : Reviewer) (R : Reader) (text : String) : Prop :=
  strip text = "" ∨ ∃ v, R.loads (stripJsonFences R text) = .ok v ∧ A.Holds v []

/-- The document ends the loop: its file cannot be read, the call raises or stays suppressed, or
the answer does harm. -/
def Spoils (A : Reviewer) (W : Outside) (s : TPRMState) (doc : String) : Prop :=
  match A.told W s doc with
  | .error _ => True
  | .ok none => False
  | .ok (some text) => ¬ A.Harmless W.reader text

/-- The document has no findings. -/
def Silent (A : Reviewer) (W : Outside) (s : TPRMState) (doc : String) : Prop :=
  match A.told W s doc with
  | .error _ => False
  | .ok none => True
  | .ok (some text) => A.Empty W.reader text

/-- The pass over the earnings fails. Only the financial agent makes one, in a deal. -/
def Misprices (A : Reviewer) (W : Outside) (s : TPRMState) : Prop :=
  ∃ each, (docsFor A.name s).mapM (A.review W s) = .ok each ∧ A = .financial ∧ s.mode = .ma ∧
    each.flatten ≠ [] ∧ ∃ e, FinancialAgent.earnings W s each.flatten = .error e

/-- The agent comes to nothing. -/
def Fails (A : Reviewer) (W : Outside) (s : TPRMState) : Prop :=
  (∃ doc ∈ docsFor A.name s, A.Spoils W s doc) ∨ A.Misprices W s

end Reviewer

/-! ## What one item comes to -/

theorem strField_ok_iff {v : Json} {s : String} : strField v = .ok s ↔ v = .str s := by
  cases v <;> simp [strField]

theorem findingOf_ok_iff {R : Reader} {form : ItemForm} {doc : String} {item : Json} :
    (∃ f, findingOf R form doc item = .ok f) ↔
      ∃ members, item = .dict members ∧ Reviewer.Passes R form members := by
  cases item with
  | dict members =>
    constructor
    · rintro ⟨f, hf⟩
      refine ⟨members, rfl, ?_⟩
      simp only [findingOf, citationOf, bind, Except.bind] at hf
      rcases hpage : R.intOrNone ((Json.get? members "citation_page").getD .null) with e | page
      · simp [hpage] at hf
      rcases hsnippet : strField ((form.snippetKey.bind (Json.get? members)).getD (.str ""))
        with e | snippet
      · simp [hpage, hsnippet] at hf
      rcases hcategory : strField ((Json.get? members form.categoryKey).getD
        (.str form.defaultCategory)) with e | category
      · simp [hpage, hsnippet, hcategory] at hf
      rcases hsummary : strField ((Json.get? members "summary").getD (.str "")) with e | summary
      · simp [hpage, hsnippet, hcategory, hsummary] at hf
      exact ⟨⟨page, hpage⟩, ⟨snippet, strField_ok_iff.mp hsnippet⟩,
        ⟨category, strField_ok_iff.mp hcategory⟩, ⟨summary, strField_ok_iff.mp hsummary⟩⟩
    · rintro ⟨members', heq, h⟩
      cases heq
      obtain ⟨page, hpage⟩ := h.page
      obtain ⟨snippet, hsnippet⟩ := h.snippet
      obtain ⟨category, hcategory⟩ := h.category
      obtain ⟨summary, hsummary⟩ := h.summary
      simp [findingOf, citationOf, bind, Except.bind, hpage, strField_ok_iff.mpr hsnippet,
        strField_ok_iff.mpr hcategory, strField_ok_iff.mpr hsummary]
  | _ => simp [findingOf]

theorem findingsOf_ok_iff {R : Reader} {form : ItemForm} {doc : String} {items : List Json} :
    (∃ found, findingsOf R form doc items = .ok found) ↔
      ∀ item ∈ items, ∃ members, item = .dict members ∧ Reviewer.Passes R form members := by
  have herror := @mapM_error_iff _ _ _ (findingOf R form doc) items
  rw [exists_error_iff] at herror
  unfold findingsOf
  rw [← not_iff_not, herror]
  simp only [exists_error_iff, findingOf_ok_iff, not_forall, exists_prop]

theorem findingsOf_nil_iff {R : Reader} {form : ItemForm} {doc : String} {items : List Json} :
    findingsOf R form doc items = .ok [] ↔ items = [] := by
  unfold findingsOf
  rw [mapM_ok_iff]
  simp

/-! ## What one document comes to -/

theorem lift_ok_iff {α : Type} {x : Except Raised α} {a : α} : lift x = .ok a ↔ x = .ok a := by
  cases x <;> simp [lift, Except.mapError]

namespace Reviewer

variable {A : Reviewer} {W : Outside} {s : TPRMState} {doc : String}

theorem review_eq : A.review W s doc =
    match A.told W s doc with
    | .error e => .error e
    | .ok none => .ok []
    | .ok (some text) => A.readAnswer W.reader doc text := by
  unfold told
  cases A with
  | legal =>
    show LegalAgent.review W s doc = _
    unfold LegalAgent.review
    rcases uriOf s doc with _ | uri
    · rfl
    · simp only [question, name, bind, Except.bind]
      rcases LegalAgent.question W doc uri with e | asked
      · rfl
      · simp only [Except.map]
        rcases callLlm W ⟨LegalAgent.name, s.subjectName, asked, false⟩ with e | text <;> rfl
  | financial =>
    show FinancialAgent.review W s doc = _
    unfold FinancialAgent.review
    rcases uriOf s doc with _ | uri
    · rfl
    · simp only [question, name, bind, Except.bind]
      rcases FinancialAgent.question W doc uri with e | _ | asked
      · rfl
      · rfl
      · simp only [Except.map]
        rcases callLlm W ⟨FinancialAgent.name, s.subjectName, asked, false⟩ with e | text <;> rfl

theorem readAnswer_ok_iff {R : Reader} {text : String} :
    (∃ found, A.readAnswer R doc text = .ok found) ↔ A.Harmless R text := by
  unfold Harmless
  by_cases hblank : strip text = ""
  · cases A <;> simp [readAnswer, LegalAgent.readAnswer, FinancialAgent.readAnswer, hblank]
  rcases hload : R.loads (stripJsonFences R text) with (_ | e) | v
  · cases A <;>
      simp [readAnswer, LegalAgent.readAnswer, FinancialAgent.readAnswer, hblank, hload]
  · cases A <;>
      simp [readAnswer, LegalAgent.readAnswer, FinancialAgent.readAnswer, hblank, hload]
  · cases A with
    | legal =>
      simp only [readAnswer, LegalAgent.readAnswer, hblank, hload, if_false, lift_ok_iff, Holds,
        false_or, reduceCtorEq, exists_false, false_and, or_false, Except.ok.injEq,
        exists_eq_left', form]
      rcases hiter : v.iterate with e | items
      · simp [bind, Except.bind]
      · simp only [bind, Except.bind, findingsOf_ok_iff, Except.ok.injEq, exists_eq_left']
    | financial =>
      simp only [hblank, Holds, false_or, reduceCtorEq, exists_false, Except.ok.injEq,
        exists_eq_left', true_and, form]
      cases v with
      | list items =>
        simp only [readAnswer, FinancialAgent.readAnswer, hblank, hload, if_false, lift_ok_iff,
          findingsOf_ok_iff, Json.list.injEq, exists_eq_left']
        simp
      | _ => simp [readAnswer, FinancialAgent.readAnswer, hblank, hload]

theorem readAnswer_nil_iff {R : Reader} {text : String} :
    A.readAnswer R doc text = .ok [] ↔ A.Empty R text := by
  unfold Empty
  by_cases hblank : strip text = ""
  · cases A <;> simp [readAnswer, LegalAgent.readAnswer, FinancialAgent.readAnswer, hblank]
  rcases hload : R.loads (stripJsonFences R text) with (_ | e) | v
  · cases A <;>
      simp [readAnswer, LegalAgent.readAnswer, FinancialAgent.readAnswer, hblank, hload]
  · cases A <;>
      simp [readAnswer, LegalAgent.readAnswer, FinancialAgent.readAnswer, hblank, hload]
  · cases A with
    | legal =>
      simp only [readAnswer, LegalAgent.readAnswer, hblank, hload, if_false, lift_ok_iff, Holds,
        false_or, Except.ok.injEq, exists_eq_left']
      rcases hiter : v.iterate with e | items
      · simp [bind, Except.bind]
      · simp only [bind, Except.bind, findingsOf_nil_iff, Except.ok.injEq]
    | financial =>
      simp only [hblank, Holds, false_or, Except.ok.injEq, exists_eq_left']
      cases v with
      | list items =>
        simp only [readAnswer, FinancialAgent.readAnswer, hblank, hload, if_false, lift_ok_iff,
          findingsOf_nil_iff, Json.list.injEq]
      | _ => simp [readAnswer, FinancialAgent.readAnswer, hblank, hload]

theorem spoils_iff : (∃ e, A.review W s doc = .error e) ↔ A.Spoils W s doc := by
  rw [exists_error_iff, review_eq]
  unfold Spoils
  rcases A.told W s doc with e | _ | text
  · simp
  · simp
  · simp only [readAnswer_ok_iff]

theorem silent_iff : A.review W s doc = .ok [] ↔ A.Silent W s doc := by
  rw [review_eq]
  unfold Silent
  rcases A.told W s doc with e | _ | text
  · simp
  · simp
  · simp only [readAnswer_nil_iff]

theorem fails_iff : Breaks (A.review W s) (A.closing W s) (docsFor A.name s) ↔ A.Fails W s := by
  unfold Fails Misprices
  rw [breaks_iff]
  simp only [spoils_iff]
  refine or_congr_right (exists_congr fun each => and_congr_right fun _ => ?_)
  cases A with
  | legal => simp [closing]
  | financial =>
    simp only [closing, true_and]
    split
    · rename_i h
      simp [h.1, h.2]
    · rename_i h
      rw [not_and_or] at h
      rcases h with h | h <;> simp [h]

end Reviewer

/-! ## Without one document -/

/-- The state in which the agent is not given its `i`-th document. -/
def without (name : String) (i : Nat) (s : TPRMState) : TPRMState :=
  { s with routing := s.routing.set name ((docsFor name s).eraseIdx i) }

theorem docsFor_without (name : String) (i : Nat) (s : TPRMState) :
    docsFor name (without name i s) = (docsFor name s).eraseIdx i := by
  simp [docsFor, without, Dict.get?_set_self]

theorem review_without (A : Reviewer) (W : Outside) (name : String) (i : Nat) (s : TPRMState) :
    A.review W (without name i s) = A.review W s := by
  cases A <;> rfl

theorem closing_without (A : Reviewer) (W : Outside) (name : String) (i : Nat) (s : TPRMState) :
    A.closing W (without name i s) = A.closing W s := by
  cases A <;> rfl

/-- What the wrapped agent returns for its other documents does not depend on the `i`-th one, if
the agent comes to nothing with it and without it or neither way, or if it finds nothing in the
others. -/
theorem documents_are_isolated_iff (A : Reviewer) (W : Outside) (s : TPRMState) (i : Nat) :
    (∀ t, (A.returned W t).findings = wrapped A.name (A.emitReport W t)) ∧
      ((A.returned W s).perDocument.eraseIdx i =
          (A.returned W (without A.name i s)).perDocument ↔
        (A.Fails W s ↔ A.Fails W (without A.name i s)) ∨
          ∀ doc ∈ docsFor A.name (without A.name i s), A.Silent W s doc) := by
  refine ⟨Reviewer.findings_returned A W, ?_⟩
  have hfails := Reviewer.fails_iff (A := A) (W := W) (s := without A.name i s)
  rw [review_without, closing_without, docsFor_without] at hfails
  rw [Reviewer.perDocument_returned, Reviewer.perDocument_returned, review_without,
    closing_without, docsFor_without, kept_eraseIdx_iff, hfails, Reviewer.fails_iff]
  simp only [Reviewer.silent_iff]

/-! ## A bad answer -/

/-- Of these texts, one is a list with a clause, and one is a number. -/
def twoTexts : Reader where
  loads text :=
    if text = "[clause]" then .ok (.list [.dict [("category", .str "liability"),
      ("severity", .str "critical"), ("summary", .str "No cap on liability.")]])
    else if text = "5" then .ok (.int 5)
    else .error (.decode "Expecting value")
  reprStr s := s
  intOfText _ := .error ⟨"ValueError", "invalid literal for int()", false⟩
  isWord c := c.isAlphanum
  intOrNone _ := .ok none
  remediationItem _ := none
  dumpFindings _ := .ok "[]"

/-- The model answers with a clause about the first document, and with a number about any other
one. -/
def twoAnswers : Outside where
  reader := twoTexts
  complete request :=
    match request.question with
    | .document "msa.pdf" _ _ => .ok ⟨some "[clause]", false⟩
    | _ => .ok ⟨some "5", false⟩
  readUri _ := .ok none

def twoDocuments : TPRMState :=
  { TPRMState.start .vendor "Acme" "packet" none with
    fileUris := Dict.ofList [("msa.pdf", "https://files/1"), ("dpa.pdf", "https://files/2")]
    routing := Dict.ofList [("LegalAgent", ["msa.pdf", "dpa.pdf"])] }

/-- With the second document all that the agent returns is that it failed. Without it, it returns
the clause of the first one. -/
theorem a_bad_answer_costs_the_other_findings :
    (Reviewer.legal.returned twoAnswers twoDocuments).perDocument.eraseIdx 1 ≠
        (Reviewer.legal.returned twoAnswers (without "LegalAgent" 1 twoDocuments)).perDocument ∧
      wrapped "LegalAgent" (LegalAgent.emitReport twoAnswers twoDocuments) =
        [errorFinding "LegalAgent" (typeError "'int' object is not iterable")] ∧
      (wrapped "LegalAgent" (LegalAgent.emitReport twoAnswers
        (without "LegalAgent" 1 twoDocuments))).map (·.summary) = ["No cap on liability."] := by
  refine ⟨?_, ?_, ?_⟩ <;> decide +kernel

end orchestra.tprm.isolation
