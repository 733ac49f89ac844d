-- `TreeOfThoughtsAgent` of `reasoning/tot.py`: thoughts are generated and
-- evaluated level by level, or along one path with backtracking.
import Orchestra.Agents

open dicts programs texts decimals

namespace orchestra.thoughts

open orchestra.agents

/-! ## Thoughts -/

/-- A node of the tree. Of its parents only the thoughts are read, and none of
the nodes that a search returns has children. -/
structure ThoughtNode where
  thought : String
  value : Rat
  depth : Nat
  above : List String
  isTerminal : Bool

def finalPrefix : String := "FINAL ANSWER:"

def impossibleThreshold : Rat := 1 / 5

namespace ThoughtNode

def chain (node : ThoughtNode) : List String := node.above ++ [node.thought]

def finalAnswer (node : ThoughtNode) : String :=
  if contains node.thought finalPrefix then strip (after node.thought finalPrefix)
  else node.thought

/-- A number of Python that is not whole. -/
def number (x : Rat) : Value :=
  .obj "float" [("numerator", .int x.num), ("denominator", .int x.den)]

/-- `to_dict`, of a node without children. -/
def toDict (node : ThoughtNode) : List (String × Value) :=
  [("thought", .str node.thought), ("value", number (roundTo 3 node.value)),
    ("depth", .int node.depth), ("is_terminal", .bool node.isTerminal), ("children", .list [])]

/-- A new thought below the node. -/
def child (node : ThoughtNode) (thought : String) : ThoughtNode :=
  ⟨thought, 1 / 2, node.depth + 1, node.chain, false⟩

end ThoughtNode

inductive ToTSearchStrategy
  | bfs
  | dfs
deriving DecidableEq, Repr

def ToTSearchStrategy.text : ToTSearchStrategy → String
  | .bfs => "bfs"
  | .dfs => "dfs"

structure TreeOfThoughtsAgent extends BaseAgent where
  totBreadth : Int
  totBeam : Int
  totMaxDepth : Int
  totStrategy : ToTSearchStrategy
  totTemperature : Rat
  evalTemperature : Rat

/-- `xs[:k]` -/
def sliceTo {α : Type} (xs : List α) (k : Int) : List α :=
  if 0 ≤ k then xs.take k.toNat else xs.take (xs.length - (-k).toNat)

/-- A line of the answer without its number. -/
def parseLine (isDigit : Char → Bool) (line : String) : String :=
  if contains line finalPrefix then line
  else if line.toList.head?.any isDigit && (line.toList.take 4).contains '.' then
    strip (after line ".")
  else
    let label := lower (strip (before line ":"))
    if contains line ":" && (startsWith label "thought" || startsWith label "step") then
      strip (after line ":")
    else line

/-- `_parse_thoughts` -/
def parseThoughts (isDigit : Char → Bool) (text : String) (k : Int) : List String :=
  let lines := ((splitlines text).map strip).filter (· ≠ "")
  sliceTo ((lines.map (parseLine isDigit)).filter (· ≠ "")).eraseDups k

/-- `"Step 1: .."` and so on, a line each. -/
def chainText (chain : List String) : String :=
  let steps := chain.mapIdx (fun i t => "Step " ++ toString (i + 1) ++ ": " ++ t)
  if steps.isEmpty then "(none yet)" else "\n".intercalate steps

def generatePrompt (problem chain : String) (k : Int) : String :=
  "Problem:\n" ++ problem ++ "\n\nThought chain so far:\n" ++ chain ++ "\n\nGenerate exactly " ++
    toString k ++ " distinct next steps or partial solutions.\nRules:\n" ++
    "- Each thought must be concise (1-3 sentences) and build on the chain above.\n" ++
    "- If a thought completes the problem, prefix it with \"" ++ finalPrefix ++ "\".\n" ++
    "- Output exactly " ++ toString k ++
    " thoughts, each on its own line, prefixed with \"Thought N:\" (N=1,2,...).\n" ++
    "- Do NOT include explanations outside the thoughts themselves.\n\nThoughts:"

def evaluatePrompt (problem chain thought : String) : String :=
  "Problem:\n" ++ problem ++ "\n\nThought chain so far:\n" ++ chain ++
    "\n\nProposed next thought:\n" ++ thought ++
    "\n\nDoes this thought make meaningful progress toward solving the problem?\n" ++
    "Answer with exactly one word: \"sure\", \"maybe\", or \"impossible\".\n\n" ++
    "Reasoning (1 sentence max):\nAnswer:"

/-! ## Calls of the model -/

variable (a : TreeOfThoughtsAgent) (isDigit : Char → Bool) (problem : String)

def promptRequest (content : String) (temperature : Rat) : Request :=
  ⟨[agent.message "system" a.systemPrompt [], agent.message "user" content []], a.model, none,
    temperature⟩

/-- The call of `_generate_thoughts` -/
def generateRequest (node : ThoughtNode) : Request :=
  promptRequest a (generatePrompt problem (chainText node.chain) a.totBreadth) a.totTemperature

/-- The call of `_evaluate_thought` -/
def evaluateRequest (node : ThoughtNode) : Request :=
  promptRequest a (evaluatePrompt problem (chainText node.above) node.thought) a.evalTemperature

/-- The first word of the value map that the answer holds. -/
def rating (answer : String) : Rat :=
  let raw := lower (strip answer)
  if contains raw "sure" then 1
  else if contains raw "maybe" then 1 / 2
  else if contains raw "impossible" then 0
  else 1 / 2

/-- The children that an answer of the generator gives a node. -/
def childrenOf (node : ThoughtNode) (response : LLMResponse) : List ThoughtNode :=
  (parseThoughts isDigit (response.content.getD "") a.totBreadth).map node.child

def ThoughtNode.isFinal (node : ThoughtNode) : Bool := contains node.thought finalPrefix

/-- A node as its evaluation leaves it, with what the evaluation used. One that
failed gives nothing. -/
abbrev Evaluation := ThoughtNode × Option TokenUsage

/-- The evaluations, from the answers of the model for the thoughts that are not
final. A final one is not asked about. -/
def evaluations : List ThoughtNode → List (Except Raised LLMResponse) → List Evaluation
  | [], _ => []
  | node :: rest, answers =>
    if node.isFinal then
      ({ node with value := 1, isTerminal := true }, some .zero) :: evaluations rest answers
    else
      match answers with
      | [] => []
      | .ok response :: answers =>
        ({ node with value := rating (response.content.getD "") }, some response.spent) ::
          evaluations rest answers
      | .error _ :: answers => ({ node with value := 1 / 2 }, none) :: evaluations rest answers

/-- All evaluations of a level, side by side. -/
def evaluateAll (candidates : List ThoughtNode) : Code (List Evaluation) := do
  let answers ← gather .evaluating
    ((candidates.filter (fun node => !node.isFinal)).map (evaluateRequest a problem))
  pure (evaluations candidates answers)

/-- The better one of the best so far and a node. The first of equals stays. -/
def better (best : Option ThoughtNode) (node : ThoughtNode) : Option ThoughtNode :=
  match best with
  | none => some node
  | some b => if b.value < node.value then some node else some b

/-- The nodes that end the search, the ones that go on, and the usage. -/
structure Assessment where
  best : Option ThoughtNode
  viable : List ThoughtNode
  usage : TokenUsage

/-- One turn of the loop over the evaluations. -/
def assess (s : Assessment) (e : Evaluation) : Assessment :=
  let s := { s with usage := s.usage.add (e.2.getD .zero) }
  if e.1.isTerminal then { s with best := better s.best e.1 }
  else if impossibleThreshold < e.1.value then { s with viable := s.viable ++ [e.1] }
  else s

/-! ## Breadth first -/

/-- Children of all nodes that the generator answered for. -/
def expand (frontier : List ThoughtNode) (answers : List (Except Raised LLMResponse)) :
    List ThoughtNode :=
  (List.zipWith (fun node answer =>
    match answer with
    | .ok response => childrenOf a isDigit node response
    | .error _ => []) frontier answers).flatten

/-- What several calls used. A call that failed used nothing. -/
def usageOf (answers : List (Except Raised LLMResponse)) (usage : TokenUsage) : TokenUsage :=
  answers.foldl (fun total answer =>
    match answer with
    | .ok response => total.add response.spent
    | .error _ => total) usage

/-- The best leaf, marked as the end. -/
def bestLeaf (frontier : List ThoughtNode) : Option ThoughtNode :=
  (frontier.foldl better none).map (fun node => { node with isTerminal := true })

/-- The loop of `_bfs`, with `left` levels left. -/
def bfsFrom : Nat → List ThoughtNode → TokenUsage → Code (Option ThoughtNode × TokenUsage)
  | 0, frontier, usage => pure (bestLeaf frontier, usage)
  | left + 1, frontier, usage => do
    let answers ← gather .generating (frontier.map (generateRequest a problem))
    let usage := usageOf answers usage
    let candidates := expand a isDigit frontier answers
    if candidates.isEmpty then pure (bestLeaf frontier, usage)
    else
      let evaluated ← evaluateAll a problem candidates
      let s := evaluated.foldl assess ⟨none, [], usage⟩
      match s.best with
      | some node => pure (some node, s.usage)
      | none =>
        let frontier := sliceTo (s.viable.mergeSort (fun x y => y.value ≤ x.value)) a.totBeam
        if frontier.isEmpty then pure (none, s.usage)
        else bfsFrom left frontier s.usage

def root : ThoughtNode := ⟨problem, 1, 0, [], false⟩

/-- `_bfs` -/
def bfs : Code (Option ThoughtNode × TokenUsage) :=
  bfsFrom a isDigit problem a.totMaxDepth.toNat [root problem] .zero

/-! ## Depth first -/

/-- The loop of `_dfs` from the pop of `node` on, with `left` levels below it.
`rest` is the loop over what lies under `node` on the stack. The nodes that an
expansion pushes are popped before it, and the best of them first. -/
def dfsFrom : Nat → ThoughtNode →
    (Option ThoughtNode → TokenUsage → Code (Option ThoughtNode × TokenUsage)) →
    Option ThoughtNode → TokenUsage → Code (Option ThoughtNode × TokenUsage)
  | 0, node, rest, best, usage =>
    rest (if best.all (fun b => b.value < node.value) then some { node with isTerminal := true }
      else best) usage
  | left + 1, node, rest, best, usage =>
    if node.isTerminal then
      rest (if best.all (fun b => b.value < node.value) then some node else best) usage
    else do
      let response ← complete .generating (generateRequest a problem node)
      let evaluated ← evaluateAll a problem (childrenOf a isDigit node response)
      let s := evaluated.foldl assess ⟨best, [], usage.add response.spent⟩
      match s.best with
      | some node => pure (some node, s.usage)
      | none =>
        let pushed := s.viable.mergeSort (fun x y => x.value ≤ y.value)
        pushed.foldl (fun rest child => dfsFrom left child rest) rest none s.usage

/-- `_dfs` -/
def dfs : Code (Option ThoughtNode × TokenUsage) :=
  dfsFrom a isDigit problem a.totMaxDepth.toNat (root problem)
    (fun best usage => pure (best, usage)) none .zero

/-! ## The run -/

/-- The first message of a user that says something. -/
def firstOfUser : List Value → Except Raised String
  | [] => .ok ""
  | msg :: rest => do
    let role ← getattr msg "role"
    if role = .str "user" then
      let content ← getattr msg "content"
      if content.truthy then .ok content.text else firstOfUser rest
    else firstOfUser rest

/-- `_resolve_problem` -/
def resolveProblem (input : Value) : Except Raised String :=
  match input with
  | .str s => .ok s
  | v => v.iterate >>= firstOfUser

/-- The result of a search. -/
def searchResult (best : Option ThoughtNode) (usage : TokenUsage) : AgentResult :=
  let output := match best with
    | some node => node.finalAnswer
    | none => "Tree of Thoughts search exhausted without finding a solution."
  { agentName := a.name
    output
    structuredOutput := none
    messages := [agent.message "assistant" output [("name", .str a.name)]]
    stateUpdates := Dict.ofList [
      ("thought_tree", .dict (best.elim [] (·.toDict))),
      ("thought_chain", .list (best.elim [] (fun node => node.chain.map .str))),
      ("tot_strategy", .str a.totStrategy.text)]
    toolCallsMade := []
    tokenUsage := some (TokenUsage.zero.add usage)
    isPartial := false }

/-- The search that the strategy asks for. -/
def search : Code (Option ThoughtNode × TokenUsage) :=
  match a.totStrategy with
  | .bfs => bfs a isDigit problem
  | .dfs => dfs a isDigit problem

/-- `TreeOfThoughtsAgent.run` -/
def TreeOfThoughtsAgent.run (input : Value) (ctx : Context) : Code AgentResult :=
  if ctx.hasProvider then do
    let problem ← Program.ofExcept (resolveProblem input)
    let found ← search a ctx.host.isDigit problem
    pure (searchResult a found.1 found.2)
  else Program.fail ⟨"RuntimeError", "Agent '" ++ a.name ++
    "' has no LLM provider. Pass provider= when calling compiled.run().", false⟩

end orchestra.thoughts
