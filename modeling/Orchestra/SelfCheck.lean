-- `SelfCheckAgent` of `reliability/agents.py` and the checker of `selfcheck.py`:
-- an agent that draws more answers to its own question and scores how well
-- they agree with the first one.
import Orchestra.TreeOfThoughts

open dicts programs texts decimals

namespace orchestra.selfcheck

open orchestra.agents orchestra.thoughts

/-! ## The checker -/

inductive SelfCheckMethod
  | nli
  | bertscore
  | ngram
  | llm
deriving DecidableEq, Repr

def SelfCheckMethod.text : SelfCheckMethod → String
  | .nli => "nli"
  | .bertscore => "bertscore"
  | .ngram => "ngram"
  | .llm => "llm"

structure SentenceScore where
  sentence : String
  score : Rat

structure SelfCheckResult where
  response : String
  sentences : List SentenceScore
  consistencyScore : Rat
  hallucinationRisk : String
  numSamples : Nat
  method : String
  sampleTokenUsage : TokenUsage

structure SelfChecker where
  method : SelfCheckMethod
  numSamples : Nat
  sampleTemperature : Rat
  lowRiskThreshold : Rat
  highRiskThreshold : Rat

namespace SelfChecker

variable (c : SelfChecker) (model : Option String)

/-- `_risk_level` -/
def riskLevel (consistencyScore : Rat) : String :=
  if c.lowRiskThreshold ≤ consistencyScore then "low"
  else if c.highRiskThreshold ≤ consistencyScore then "medium"
  else "high"

/-- `_empty_result` -/
def emptyResult (response : String) (tokenUsage : TokenUsage) : SelfCheckResult where
  response
  sentences := []
  consistencyScore := 1
  hallucinationRisk := "low"
  numSamples := 0
  method := c.method.text
  sampleTokenUsage := tokenUsage

/-- The texts of the answers that have one. -/
def passages (answers : List (Except Raised LLMResponse)) : List String :=
  answers.filterMap (fun answer =>
    match answer with
    | .ok response => response.content.bind (fun s => if s ≠ "" then some s else none)
    | .error _ => none)

/-- `_sample_passages` -/
def samplePassages (messages : List Value) : Code (List String × TokenUsage) := do
  let answers ← gather .sampling
    (List.replicate c.numSamples ⟨messages, model, none, c.sampleTemperature⟩)
  pure (passages answers, usageOf answers .zero)

/-- The vote of one answer of the judge. -/
def vote (response : LLMResponse) : Rat :=
  let text := lower (strip (response.content.getD ""))
  if startsWith text "yes" then 0
  else if startsWith text "no" then 1
  else 1 / 2

def judgeRequest (sentence sample : String) : Request :=
  ⟨[agent.message "user" ("Context: " ++ sample ++ "\n\nSentence: " ++ sentence ++
    "\n\nIs the sentence supported by the context above? Answer Yes or No.\n\nAnswer:") []],
    model, none, 0⟩

/-- The mean of the votes that came. -/
def meanVote (answers : List (Except Raised LLMResponse)) : Rat :=
  let votes := answers.filterMap (fun answer =>
    match answer with
    | .ok response => some (vote response)
    | .error _ => none)
  if votes.isEmpty then 1 / 2 else votes.sum / votes.length

/-- `_score_llm` -/
def scoreLlm (samples : List String) : List String → Code (List Rat)
  | [] => pure []
  | sentence :: rest => do
    let answers ← gather .judging (samples.map (judgeRequest model sentence))
    let scores ← scoreLlm samples rest
    pure (meanVote answers :: scores)

/-- `_score`. The other methods ask a scorer outside. -/
def score (sentences samples : List String) : Code (List Rat) :=
  match c.method with
  | .llm => scoreLlm model samples sentences
  | _ => do
    let answer : Except Raised (List Rat) ← ask (.scores sentences samples)
    Program.ofExcept answer

/-- `check` -/
def check (response : String) (messages : List Value) : Code SelfCheckResult := do
  let answer : Except Raised (List String) ← ask (.sentences response)
  let split ← Program.ofExcept answer
  let sentences := (split.map strip).filter (· ≠ "")
  if sentences.isEmpty then pure (c.emptyResult response .zero)
  else
    let (samples, tokenUsage) ← c.samplePassages model messages
    if samples.isEmpty then pure (c.emptyResult response tokenUsage)
    else
      let scores ← c.score model sentences samples
      if scores.isEmpty then
        Program.fail ⟨"ZeroDivisionError", "division by zero", false⟩
      else
        let consistencyScore := 1 - scores.sum / scores.length
        pure {
          response
          sentences := List.zipWith SentenceScore.mk sentences scores
          consistencyScore
          hallucinationRisk := c.riskLevel consistencyScore
          numSamples := samples.length
          method := c.method.text
          sampleTokenUsage := tokenUsage }

end SelfChecker

/-! ## The agent -/

structure SelfCheckAgent extends BaseAgent where
  selfcheckMethod : SelfCheckMethod
  selfcheckSamples : Nat
  selfcheckTemperature : Rat
  retryOnHighRisk : Bool

/-- The checker of one run. Its thresholds are the defaults. -/
def SelfCheckAgent.checker (a : SelfCheckAgent) : SelfChecker :=
  ⟨a.selfcheckMethod, a.selfcheckSamples, a.selfcheckTemperature, 7 / 10, 3 / 10⟩

/-- `_build_sampling_messages` -/
def samplingMessages (systemPrompt : String) (input : Value) : Except Raised (List Value) :=
  let system := agent.message "system" systemPrompt []
  match input with
  | .str s => .ok (system :: if s ≠ "" then [agent.message "user" s []] else [])
  | v => v.iterate.map (system :: ·)

/-- What the result says about its own check. -/
def SelfCheckResult.annotation (sc : SelfCheckResult) : Value :=
  .dict [("consistency_score", ThoughtNode.number sc.consistencyScore),
    ("hallucination_risk", .str sc.hallucinationRisk), ("method", .str sc.method),
    ("num_samples", .int sc.numSamples), ("num_sentences", .int sc.sentences.length),
    ("flagged", .list ((sc.sentences.filter (fun s => 1 / 2 < s.score)).map (.str ·.sentence))),
    ("sentence_scores", .list (sc.sentences.map (fun s =>
      .dict [("sentence", .str s.sentence), ("score", ThoughtNode.number (roundTo 4 s.score))])))]

/-- The result that is kept, with its check. -/
def annotated (result : AgentResult) (sc : SelfCheckResult) : AgentResult :=
  { result with
    stateUpdates := result.stateUpdates.set "selfcheck" sc.annotation
    isPartial := false }

/-- A run of the agent itself and the check of what it says. -/
def SelfCheckAgent.checkedRun (a : SelfCheckAgent) (input : Value) (ctx : Context)
    (messages : List Value) : Code (AgentResult × SelfCheckResult) := do
  let result ← a.toBaseAgent.run input ctx false
  let sc ← a.checker.check a.model result.output messages
  pure (result, sc)

/-- `SelfCheckAgent.run`. The result that it does not keep is dropped with its
usage. -/
def SelfCheckAgent.run (a : SelfCheckAgent) (input : Value) (ctx : Context) : Code AgentResult := do
  let messages ← Program.ofExcept (samplingMessages a.systemPrompt input)
  let first ← a.checkedRun input ctx messages
  if first.2.hallucinationRisk = "high" ∧ a.retryOnHighRisk then
    let retry ← a.checkedRun input ctx messages
    if first.2.consistencyScore < retry.2.consistencyScore then pure (annotated retry.1 retry.2)
    else pure (annotated first.1 first.2)
  else pure (annotated first.1 first.2)

end orchestra.selfcheck
