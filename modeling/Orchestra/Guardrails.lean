-- Chains of guardrails (`security/guardrails.py`) and the guards of `security/validators.py`:
-- what a chain that passes says about the text that it returns.
import Orchestra.Agents
import Orchestra.Lib.Text

open texts programs

namespace orchestra.guardrails

open orchestra.agents
open Program

/-! ## Guards -/

/-- A guard, with what it says of a text. It may say another thing at another moment. -/
structure Guard (M : Type) where
  name : String
  onFail : OnFail
  validate : M → String → Except Raised GuardrailResult

variable {M : Type}

def Guard.validator (g : Guard M) : Validator := ⟨g.name, g.onFail⟩

/-- `GuardrailResult(passed=True, output=text)` -/
def accepted (text : String) : GuardrailResult := ⟨true, some text, none, []⟩

structure MaxLengthGuardrail where
  maxLength : Nat
  onFail : OnFail
  positive : 1 ≤ maxLength

def MaxLengthGuardrail.validate (g : MaxLengthGuardrail) (text : String) : GuardrailResult :=
  if text.length ≤ g.maxLength then accepted text
  else
    let violation := "Text length " ++ toString text.length ++ " exceeds maximum " ++
      toString g.maxLength
    let output := if g.onFail = .fix then cut text g.maxLength else text
    ⟨false, some output, some violation, [⟨"max_length", violation⟩]⟩

def MaxLengthGuardrail.guard (g : MaxLengthGuardrail) : Guard M :=
  ⟨"max_length", g.onFail, fun _ text => .ok (g.validate text)⟩

/-- A compiled pattern: `bool(p.search(text))` and `p.sub(replacement, text)`. -/
structure Regex where
  pattern : String
  search : String → Bool
  sub : String → String → String

structure RegexGuardrail where
  pattern : Regex
  mustMatch : Bool
  onFail : OnFail

def RegexGuardrail.validate (g : RegexGuardrail) (text : String) : GuardrailResult :=
  let matched := g.pattern.search text
  if g.mustMatch && matched then accepted text
  else if !g.mustMatch && !matched then accepted text
  else
    let violation :=
      if g.mustMatch then "Text does not match required pattern: " ++ g.pattern.pattern
      else "Text matches forbidden pattern: " ++ g.pattern.pattern
    ⟨false, some text, some violation, [⟨"regex_guardrail", violation⟩]⟩

def RegexGuardrail.guard (g : RegexGuardrail) : Guard M :=
  ⟨"regex_guardrail", g.onFail, fun _ text => .ok (g.validate text)⟩

/-- `_FALLBACK_PATTERNS` -/
def fallbackPatterns : List (String × String) :=
  [("email", "[a-zA-Z0-9_.+-]+@[a-zA-Z0-9-]+\\.[a-zA-Z0-9-.]+"),
    ("phone", "\\b(?:\\+?(\\d\x7b1,3\x7d))?[-. (]*(\\d\x7b3\x7d)[-. )]*(\\d\x7b3\x7d)" ++
      "[-. ]*(\\d\x7b4\x7d)\\b"),
    ("ssn", "\\b\\d\x7b3\x7d-\\d\x7b2\x7d-\\d\x7b4\x7d\\b"),
    ("credit_card", "\\b(?:\\d[ -]*?)\x7b13,16\x7d\\b")]

/-- `_REPLACEMENT_MAP` -/
def replacementMap : List (String × String) :=
  [("email", "[EMAIL_REDACTED]"), ("phone", "[PHONE_REDACTED]"), ("ssn", "[SSN_REDACTED]"),
    ("credit_card", "[CC_REDACTED]")]

structure PIIRedactionGuardrail where
  onFail : OnFail

section patterns

-- `re.compile`
variable (re : String → Regex)

/-- `_validate_with_regex`. Each pattern is looked for in the text that was given, and
replaced in what the patterns before it have left. -/
def PIIRedactionGuardrail.validateWithRegex (g : PIIRedactionGuardrail) (text : String) :
    GuardrailResult :=
  let found := fallbackPatterns.filter (fun p => (re p.2).search text)
  let violations := found.map (fun p => ⟨"pii_redaction", "PII detected: " ++ p.1⟩)
  match violations with
  | [] => accepted text
  | first :: _ =>
    let redact (redacted : String) (p : String × String) : String :=
      (re p.2).sub ((replacementMap.lookup p.1).getD "") redacted
    let output := if g.onFail = .fix then found.foldl redact text else text
    ⟨false, some output, some first.message, violations⟩

def PIIRedactionGuardrail.guard (g : PIIRedactionGuardrail) : Guard M :=
  ⟨"pii_redaction", g.onFail, fun _ text => .ok (g.validateWithRegex re text)⟩

/-- The guards of `validators.py`. -/
inductive BuiltIn : Guard M → Prop
  | maxLength (g : MaxLengthGuardrail) : BuiltIn g.guard
  | regex (g : RegexGuardrail) : BuiltIn g.guard
  | pii (g : PIIRedactionGuardrail) : BuiltIn (g.guard re)

end patterns

/-! ## The chain -/

/-- What one guard makes of a chain: it goes on with a text, it stops, or it raises. -/
inductive Turn
  | goes (text : String) (found : List GuardrailViolation)
  | stops (violation : Option String) (found : List GuardrailViolation)
  | raises (e : Raised)

def guardrailError (name : String) (violation : Option String) : Raised :=
  ⟨"GuardrailError", "Guardrail '" ++ name ++ "' failed: " ++ violation.getD "None", false⟩

/-- The loop body of `GuardrailChain.run`. -/
def Guard.turn (g : Guard M) (m : M) (text : String) : Turn :=
  match g.validate m text with
  | .error e => .raises e
  | .ok result =>
    if result.passed then .goes (result.output.getD text) []
    else
      match g.onFail with
      | .block | .retry => .stops result.violation result.violations
      | .exception => .raises (guardrailError g.name result.violation)
      | .fix => .goes (result.output.getD text) result.violations
      | .log => .goes text result.violations

/-- `GuardrailChain.run`, from the text and the violations so far. -/
def runFrom (m : M) : List (Guard M) → String → List GuardrailViolation →
    Except Raised GuardrailResult
  | [], text, violations => .ok ⟨true, some text, none, violations⟩
  | g :: rest, text, violations =>
    match g.turn m text with
    | .goes text' found => runFrom m rest text' (violations ++ found)
    | .stops violation found => .ok ⟨false, some text, violation, violations ++ found⟩
    | .raises e => .error e

def run (m : M) (chain : List (Guard M)) (text : String) : Except Raised GuardrailResult :=
  runFrom m chain text []

/-- The chain is the one of `Agents.lean` when its guards answer. -/
theorem path_runChain (m : M) (chain : List (Guard M)) (text : String)
    (violations : List GuardrailViolation) :
    ∃ trace, Path (runChain (chain.map (·.validator)) text violations) trace
      (.done (runFrom m chain text violations)) := by
  induction chain generalizing text violations with
  | nil => exact ⟨[], .stay _⟩
  | cons g rest ih =>
    obtain ⟨name, onFail, validate⟩ := g
    simp only [runFrom, Guard.turn]
    rcases validate m text with e | ⟨passed, output, violation, found⟩
    · exact ⟨[⟨.validate ⟨name, onFail⟩ text, .error e⟩], .answer _ (.stay _)⟩
    cases passed with
    | true =>
      obtain ⟨trace, hpath⟩ := ih (output.getD text) violations
      simp only [if_true, List.append_nil]
      exact ⟨⟨.validate ⟨name, onFail⟩ text, .ok ⟨true, output, violation, found⟩⟩ :: trace,
        .answer _ hpath⟩
    | false =>
      cases onFail with
      | block | retry | exception =>
        exact ⟨[⟨.validate ⟨name, _⟩ text, .ok ⟨false, output, violation, found⟩⟩],
          .answer _ (.stay _)⟩
      | fix =>
        obtain ⟨trace, hpath⟩ := ih (output.getD text) (violations ++ found)
        exact ⟨⟨.validate ⟨name, .fix⟩ text, .ok ⟨false, output, violation, found⟩⟩ :: trace,
          .answer _ hpath⟩
      | log =>
        obtain ⟨trace, hpath⟩ := ih text (violations ++ found)
        exact ⟨⟨.validate ⟨name, .log⟩ text, .ok ⟨false, output, violation, found⟩⟩ :: trace,
          .answer _ hpath⟩

/-! ## What a chain that passes says -/

/-- The guard lets the text pass. -/
def Accepts (g : Guard M) (m : M) (text : String) : Prop :=
  ∃ result, g.validate m text = .ok result ∧ result.passed = true

/-- The text that a guard hands on. -/
def Guard.left (g : Guard M) (m : M) (text : String) : String :=
  match g.turn m text with
  | .goes text' _ => text'
  | _ => text

/-- The text that the guards hand on one to the next. -/
def leftBy (m : M) (chain : List (Guard M)) (text : String) : String :=
  chain.foldl (fun text g => g.left m text) text

/-- What a guard did with a text that came through: it let the text pass, it put its own
text in the place of it, or it only logged. -/
inductive Judged (g : Guard M) (m : M) (text : String) : Prop
  | accepted (accepts : Accepts g m text)
  | fixed (fix : g.onFail = .fix) {result : GuardrailResult}
    (refuses : g.validate m text = .ok result) (failed : result.passed = false)
    (left : g.left m text = result.output.getD text)
  | logged (log : g.onFail = .log) (left : g.left m text = text)

/-- A guard that hands on the texts that it lets pass. -/
def HandsOn (g : Guard M) (m : M) : Prop :=
  ∀ text result, g.validate m text = .ok result → result.passed = true →
    result.output.getD text = text

/-- A chain that passes: each guard has judged the text that the guards before it left, the
output is what they all left, and it is clean for each guard that can stop the chain and was
given the output. Without guards that fix, it is the text itself, and clean for all. -/
structure PassedClean (m : M) (chain : List (Guard M)) (text output : String) : Prop where
  left : output = leftBy m chain text
  judged : ∀ before g after, chain = before ++ g :: after → Judged g m (leftBy m before text)
  clean : ∀ before g after, chain = before ++ g :: after → g.onFail ≠ .log → g.onFail ≠ .fix →
    leftBy m before text = output → Accepts g m output
  unfixed : (∀ g ∈ chain, g.onFail ≠ .fix ∧ HandsOn g m) →
    output = text ∧ ∀ g ∈ chain, g.onFail ≠ .log → Accepts g m output

variable {m : M} {g : Guard M} {chain : List (Guard M)} {text : String}
  {violations : List GuardrailViolation}

/-- A guard behind which the chain goes on has judged the text. -/
theorem judged_of_goes {text' : String} {found : List GuardrailViolation}
    (h : g.turn m text = .goes text' found) : Judged g m text ∧ g.left m text = text' := by
  have hleft : g.left m text = text' := by
    unfold Guard.left
    rw [h]
  refine ⟨?_, hleft⟩
  unfold Guard.turn at h
  rcases hvalidate : g.validate m text with e | result
  · rw [hvalidate] at h
    cases h
  · rw [hvalidate] at h
    dsimp only at h
    split at h
    · rename_i hpassed
      exact .accepted ⟨result, hvalidate, hpassed⟩
    · rename_i hfailed
      rcases honFail : g.onFail with _ | _ | _ | _ | _
      all_goals rw [honFail] at h; cases h
      · exact .fixed honFail hvalidate (by simpa using hfailed) hleft
      · exact .logged honFail hleft

/-- In a chain that passes every guard has judged what the guards before it left. -/
theorem judged_of_passed {result : GuardrailResult}
    (h : runFrom m chain text violations = .ok result) (hpassed : result.passed = true) :
    result.output = some (leftBy m chain text) ∧
      ∀ before g after, chain = before ++ g :: after → Judged g m (leftBy m before text) := by
  induction chain generalizing text violations with
  | nil =>
    cases h
    exact ⟨rfl, by simp⟩
  | cons g rest ih =>
    unfold runFrom at h
    rcases hturn : g.turn m text with ⟨text', found⟩ | ⟨violation, found⟩ | e
    · rw [hturn] at h
      obtain ⟨hjudged, hleft⟩ := judged_of_goes hturn
      subst hleft
      obtain ⟨houtput, hrest⟩ := ih h
      refine ⟨houtput, fun before g' after hsplit => ?_⟩
      rcases before with _ | ⟨b, before⟩
      · obtain ⟨rfl, rfl⟩ := List.cons.inj hsplit
        exact hjudged
      · obtain ⟨rfl, rfl⟩ := List.cons.inj hsplit
        exact hrest before g' after rfl
    · rw [hturn] at h
      cases h
      cases hpassed
    · rw [hturn] at h
      cases h

theorem Judged.accepts (h : Judged g m text) (hlog : g.onFail ≠ .log) (hfix : g.onFail ≠ .fix) :
    Accepts g m text := by
  cases h with
  | accepted accepts => exact accepts
  | fixed fix => exact absurd fix hfix
  | logged log => exact absurd log hlog

/-- A guard that fixes nothing and hands on what it accepts leaves the text as it is. -/
theorem Judged.left (h : Judged g m text) (hfix : g.onFail ≠ .fix) (hhands : HandsOn g m) :
    g.left m text = text := by
  cases h with
  | accepted accepts =>
    obtain ⟨result, hvalidate, hpassed⟩ := accepts
    unfold Guard.left Guard.turn
    rw [hvalidate]
    simp only [hpassed, if_true]
    exact hhands text result hvalidate hpassed
  | fixed fix => exact absurd fix hfix
  | logged log left => exact left

theorem leftBy_of_judged (hplain : ∀ g ∈ chain, g.onFail ≠ .fix ∧ HandsOn g m)
    (hjudged : ∀ before g after, chain = before ++ g :: after →
      Judged g m (leftBy m before text)) (before after : List (Guard M))
    (hsplit : chain = before ++ after) : leftBy m before text = text := by
  induction before using List.reverseRecOn generalizing after with
  | nil => rfl
  | append_singleton before g ih =>
    have hchain : chain = before ++ g :: after := by rw [hsplit]; simp
    have hbefore := ih (g :: after) hchain
    have hhere := hjudged before g after hchain
    obtain ⟨hfix, hhands⟩ := hplain g (by rw [hchain]; simp)
    have hlast : leftBy m (before ++ [g]) text = g.left m (leftBy m before text) := by
      simp [leftBy]
    rw [hlast, hhere.left hfix hhands, hbefore]

/-- Guards that leave the text as it is have all judged it. -/
theorem clean_of_judged (hplain : ∀ g ∈ chain, g.onFail ≠ .fix ∧ HandsOn g m)
    (hjudged : ∀ before g after, chain = before ++ g :: after →
      Judged g m (leftBy m before text)) :
    leftBy m chain text = text ∧ ∀ g ∈ chain, g.onFail ≠ .log → Accepts g m text := by
  have hleft := leftBy_of_judged hplain hjudged
  refine ⟨hleft chain [] (List.append_nil chain).symm, fun g hg hlog => ?_⟩
  obtain ⟨before, after, hsplit⟩ := List.append_of_mem hg
  have hhere := (hjudged before g after hsplit).accepts hlog (hplain g hg).1
  rwa [hleft before _ hsplit] at hhere

/-- What a chain passes is clean as far as its guards were asked: each guard judges once. -/
theorem passed_chain_is_clean {result : GuardrailResult} (h : run m chain text = .ok result)
    (hpassed : result.passed = true) :
    ∃ output, result.output = some output ∧ PassedClean m chain text output := by
  obtain ⟨houtput, hjudged⟩ := judged_of_passed h hpassed
  refine ⟨_, houtput, rfl, hjudged, ?_, ?_⟩
  · intro before g after hsplit hlog hfix hsame
    rw [← hsame]
    exact (hjudged before g after hsplit).accepts hlog hfix
  · intro hplain
    obtain ⟨hall, hclean⟩ := clean_of_judged hplain hjudged
    refine ⟨hall, ?_⟩
    rw [hall]
    exact hclean

/-- A pattern without special letters. -/
def literal (p : String) : Regex where
  pattern := p
  search text := contains text p
  sub replacement text := text.replace p replacement

/-- A chain that looks for a text and cuts what is longer than five letters. -/
def lookAndCut (p : String) : List (Guard Unit) :=
  [(⟨literal p, true, .block⟩ : RegexGuardrail).guard,
    (⟨5, .fix, by decide⟩ : MaxLengthGuardrail).guard]

/-- The text is still there when the rest is cut off. -/
theorem a_short_text_stays_clean :
    ∃ result output, run () (lookAndCut "ok") "ok then" = .ok result ∧
      result.output = some output ∧ output = "ok th" ∧
      PassedClean () (lookAndCut "ok") "ok then" output := by
  obtain ⟨output, houtput, hclean⟩ :=
    passed_chain_is_clean (rfl : run () (lookAndCut "ok") "ok then" = .ok _) rfl
  exact ⟨_, output, rfl, houtput, by cases houtput; rfl, hclean⟩

/-- The text is cut off behind the guard that looked for it. -/
theorem a_cut_text_is_not_clean :
    ¬ ∀ (chain : List (Guard Unit)) (text : String) (result : GuardrailResult) (output : String),
      run () chain text = .ok result → result.passed = true → result.output = some output →
      ∀ g ∈ chain, g.onFail ≠ .log → Accepts g () output := by
  intro h
  obtain ⟨result, hvalidate, hpassed⟩ := h (lookAndCut "end") "the end" _ "the e" rfl rfl
    (by decide) (⟨literal "end", true, .block⟩ : RegexGuardrail).guard (by simp [lookAndCut])
    (by decide)
  cases hvalidate
  exact absurd hpassed (by decide)

/-! ## The guards of `validators.py` -/

theorem MaxLengthGuardrail.validate_cases (g : MaxLengthGuardrail) (text : String) :
    g.validate text = accepted text ∨ (g.validate text).passed = false := by
  unfold MaxLengthGuardrail.validate
  split
  · exact .inl rfl
  · exact .inr rfl

theorem RegexGuardrail.validate_cases (g : RegexGuardrail) (text : String) :
    g.validate text = accepted text ∨ (g.validate text).passed = false := by
  unfold RegexGuardrail.validate
  rcases g.mustMatch with _ | _
  · rcases g.pattern.search text with _ | _
    · exact .inl rfl
    · exact .inr rfl
  · rcases g.pattern.search text with _ | _
    · exact .inr rfl
    · exact .inl rfl

theorem PIIRedactionGuardrail.validate_cases (re : String → Regex) (g : PIIRedactionGuardrail)
    (text : String) :
    g.validateWithRegex re text = accepted text ∨
      (g.validateWithRegex re text).passed = false := by
  unfold PIIRedactionGuardrail.validateWithRegex
  generalize fallbackPatterns.filter (fun p => (re p.2).search text) = found
  rcases found with _ | ⟨first, rest⟩
  · exact .inl rfl
  · exact .inr rfl

/-- The guards of `validators.py` hand on what they accept. -/
theorem BuiltIn.handsOn {re : String → Regex} (h : BuiltIn re g) (m : M) : HandsOn g m := by
  have hcases : ∀ text, ∃ result, g.validate m text = .ok result ∧
      (result = accepted text ∨ result.passed = false) := by
    intro text
    cases h with
    | maxLength g => exact ⟨_, rfl, g.validate_cases text⟩
    | regex g => exact ⟨_, rfl, g.validate_cases text⟩
    | pii g => exact ⟨_, rfl, g.validate_cases re text⟩
  intro text result hvalidate hpassed
  obtain ⟨result', hvalidate', heq | hfailed⟩ := hcases text
  · obtain rfl := Except.ok.inj (hvalidate.symm.trans hvalidate')
    rw [heq]
    rfl
  · obtain rfl := Except.ok.inj (hvalidate.symm.trans hvalidate')
    rw [hpassed] at hfailed
    cases hfailed

/-- Where guards of `validators.py` fix nothing, a chain passes clean texts only. -/
theorem built_in_chain_is_clean {re : String → Regex} {result : GuardrailResult}
    (hbuiltIn : ∀ g ∈ chain, BuiltIn re g ∧ g.onFail ≠ .fix) (h : run m chain text = .ok result)
    (hpassed : result.passed = true) :
    result.output = some text ∧ ∀ g ∈ chain, g.onFail ≠ .log → Accepts g m text := by
  obtain ⟨houtput, hjudged⟩ := judged_of_passed h hpassed
  have hclean := clean_of_judged
    (fun g hg => ⟨(hbuiltIn g hg).2, (hbuiltIn g hg).1.handsOn m⟩) hjudged
  rw [hclean.1] at houtput
  exact ⟨houtput, hclean.2⟩

end orchestra.guardrails
