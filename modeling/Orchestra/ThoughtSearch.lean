-- How far a search for thoughts goes (`reasoning/tot.py`): the loops of `_bfs` and `_dfs` with
-- the parents of each node and the stack as they are, and what bounds them.
import Orchestra.Lib.Loops
import Orchestra.Questions

open programs loops decimals

namespace orchestra.thought_search

open orchestra.agents orchestra.thoughts
open Program

/-! ## Nodes with their parents -/

/-- A node with the nodes above it, the root first. -/
structure Branch where
  parents : List ThoughtNode
  node : ThoughtNode

/-- The chain of the node, as nodes. -/
def Branch.nodes (b : Branch) : List ThoughtNode := b.parents ++ [b.node]

/-- The branch, with its node marked as the end. -/
def Branch.finish (b : Branch) : Branch := ⟨b.parents, { b.node with isTerminal := true }⟩

variable (a : TreeOfThoughtsAgent) (isDigit : Char → Bool) (problem : String)

/-- The children that an answer of the generator gives a node. -/
def childBranches (b : Branch) (response : LLMResponse) : List Branch :=
  (childrenOf a isDigit b.node response).map fun node => ⟨b.nodes, node⟩

/-- A branch as its evaluation leaves it, with what the evaluation used. -/
abbrev BranchEvaluation := Branch × Option TokenUsage

def evaluated (candidates : List Branch) (found : List Evaluation) : List BranchEvaluation :=
  List.zipWith (fun b e => (⟨b.parents, e.1⟩, e.2)) candidates found

/-- All evaluations of a level, side by side. -/
def evaluateBranches (candidates : List Branch) : Code (List BranchEvaluation) := do
  let found ← evaluateAll a problem (candidates.map (·.node))
  pure (evaluated candidates found)

/-- The better one of the best so far and a branch. The first of equals stays. -/
def betterBranch (best : Option Branch) (b : Branch) : Option Branch :=
  match best with
  | none => some b
  | some c => if c.node.value < b.node.value then some b else some c

structure BranchAssessment where
  best : Option Branch
  viable : List Branch
  usage : TokenUsage

/-- One turn of the loop over the evaluations. -/
def assessBranch (s : BranchAssessment) (e : BranchEvaluation) : BranchAssessment :=
  let s := { s with usage := s.usage.add (e.2.getD .zero) }
  if e.1.node.isTerminal then { s with best := betterBranch s.best e.1 }
  else if impossibleThreshold < e.1.node.value then { s with viable := s.viable ++ [e.1] }
  else s

/-! ## Breadth first -/

def expandBranches (frontier : List Branch) (answers : List (Except Raised LLMResponse)) :
    List Branch :=
  (List.zipWith (fun b answer =>
    match answer with
    | .ok response => childBranches a isDigit b response
    | .error _ => []) frontier answers).flatten

def bestBranch (frontier : List Branch) : Option Branch :=
  (frontier.foldl betterBranch none).map (·.finish)

/-- The loop of `_bfs`, with `left` levels left. -/
def bfsBranches : Nat → List Branch → TokenUsage → Code (Option Branch × TokenUsage)
  | 0, frontier, usage => pure (bestBranch frontier, usage)
  | left + 1, frontier, usage => do
    let answers ← gather .generating (frontier.map fun b => generateRequest a problem b.node)
    let usage := usageOf answers usage
    let candidates := expandBranches a isDigit frontier answers
    if candidates.isEmpty then pure (bestBranch frontier, usage)
    else
      let evaluations ← evaluateBranches a problem candidates
      let s := evaluations.foldl assessBranch ⟨none, [], usage⟩
      match s.best with
      | some b => pure (some b, s.usage)
      | none =>
        let frontier :=
          sliceTo (s.viable.mergeSort (fun x y => y.node.value ≤ x.node.value)) a.totBeam
        if frontier.isEmpty then pure (none, s.usage)
        else bfsBranches left frontier s.usage

def rootBranch : Branch := ⟨[], root problem⟩

/-- `_bfs` -/
def bfsSearch : Code (Option Branch × TokenUsage) :=
  bfsBranches a isDigit problem a.totMaxDepth.toNat [rootBranch problem] .zero

/-! ## Depth first -/

/-- What the loop of `_dfs` holds. The top of the stack comes first. -/
structure DfsState where
  stack : List Branch
  best : Option Branch
  usage : TokenUsage

/-- The branch is not expanded. -/
def AtEnd (b : Branch) : Prop := a.totMaxDepth ≤ b.node.depth ∨ b.node.isTerminal = true

instance (b : Branch) : Decidable (AtEnd a b) := inferInstanceAs (Decidable (_ ∨ _))

/-- One turn of `while stack`, or the end of the loop. -/
def turn (s : DfsState) : Code (DfsState ⊕ (Option Branch × TokenUsage)) :=
  match s.stack with
  | [] => pure (.inr (s.best, s.usage))
  | b :: stack =>
    if AtEnd a b then
      let best :=
        if s.best.all (fun c => c.node.value < b.node.value) then some b.finish else s.best
      pure (.inl ⟨stack, best, s.usage⟩)
    else do
      let response ← complete .generating (generateRequest a problem b.node)
      let evaluations ← evaluateBranches a problem (childBranches a isDigit b response)
      let t := evaluations.foldl assessBranch ⟨s.best, [], s.usage.add response.spent⟩
      match t.best with
      | some c => pure (.inr (some c, t.usage))
      | none =>
        let pushed := t.viable.mergeSort (fun x y => x.node.value ≤ y.node.value)
        pure (.inl ⟨pushed.reverse ++ stack, none, t.usage⟩)

def start : DfsState := ⟨[rootBranch problem], none, .zero⟩

/-- Evaluations, up to the answers of the model. -/
theorem evaluateBranches_bind {α : Type} (candidates : List Branch)
    (f : List BranchEvaluation → Code α) :
    evaluateBranches a problem candidates >>= f =
      gather .evaluating (((candidates.map (·.node)).filter (fun node => !node.isFinal)).map
        (evaluateRequest a problem)) >>= fun answers =>
          f (evaluated candidates (evaluations (candidates.map (·.node)) answers)) := by
  unfold evaluateBranches evaluateAll
  rw [bind_bind, bind_bind]
  rfl

/-! ## What an evaluation leaves -/

/-- An evaluation gives the node of a branch its value, and may end it. -/
structure Evaluated (c b : Branch) : Prop where
  parents : b.parents = c.parents
  thought : b.node.thought = c.node.thought
  depth : b.node.depth = c.node.depth
  above : b.node.above = c.node.above
  ends : b.node.isTerminal = true → c.node.isTerminal = true ∨ b.node.value = 1

theorem evaluated_of_mem {candidates : List Branch} {answers : List (Except Raised LLMResponse)}
    {e : BranchEvaluation}
    (h : e ∈ evaluated candidates (evaluations (candidates.map (·.node)) answers)) :
    ∃ c ∈ candidates, Evaluated c e.1 := by
  induction candidates generalizing answers with
  | nil => simp [evaluated] at h
  | cons c rest ih =>
    have hrest : ∀ answers, e ∈ evaluated rest (evaluations (rest.map (·.node)) answers) →
        ∃ c' ∈ c :: rest, Evaluated c' e.1 := by
      intro answers hmem
      obtain ⟨c', hc', he⟩ := ih hmem
      exact ⟨c', List.mem_cons_of_mem c hc', he⟩
    rw [List.map_cons] at h
    unfold evaluations at h
    split at h
    · rcases List.mem_cons.mp h with rfl | hmem
      · exact ⟨c, List.mem_cons_self, rfl, rfl, rfl, rfl, fun _ => Or.inr rfl⟩
      · exact hrest answers hmem
    · split at h
      · simp [evaluated] at h
      · rcases List.mem_cons.mp h with rfl | hmem
        · exact ⟨c, List.mem_cons_self, rfl, rfl, rfl, rfl, Or.inl⟩
        · exact hrest _ hmem
      · rcases List.mem_cons.mp h with rfl | hmem
        · exact ⟨c, List.mem_cons_self, rfl, rfl, rfl, rfl, Or.inl⟩
        · exact hrest _ hmem

/-- Where the evaluated branches come from: the viable ones are above the threshold, and the best
one is an end. -/
theorem assess_rule {V B : Branch → Prop} {es : List BranchEvaluation}
    (hviable : ∀ e ∈ es, impossibleThreshold < e.1.node.value → V e.1)
    (hbest : ∀ e ∈ es, e.1.node.isTerminal = true → B e.1) {s : BranchAssessment}
    (hs : (∀ b ∈ s.viable, V b) ∧ ∀ b, s.best = some b → B b) :
    (∀ b ∈ (es.foldl assessBranch s).viable, V b) ∧
      ∀ b, (es.foldl assessBranch s).best = some b → B b := by
  induction es generalizing s with
  | nil => exact hs
  | cons e es ih =>
    rw [List.foldl_cons]
    refine ih (fun e' he' => hviable e' (List.mem_cons_of_mem _ he'))
      (fun e' he' => hbest e' (List.mem_cons_of_mem _ he')) ?_
    unfold assessBranch
    dsimp only
    split
    · rename_i hterminal
      refine ⟨hs.1, fun b hb => ?_⟩
      unfold betterBranch at hb
      dsimp only at hb
      split at hb
      · cases hb
        exact hbest e List.mem_cons_self hterminal
      · rename_i c hc
        split at hb
        · cases hb
          exact hbest e List.mem_cons_self hterminal
        · cases hb
          exact hs.2 _ hc
    · split
      · rename_i habove
        refine ⟨fun b hb => ?_, hs.2⟩
        rcases List.mem_append.mp hb with hold | hnew
        · exact hs.1 b hold
        · rw [List.mem_singleton.mp hnew]
          exact hviable e List.mem_cons_self habove
      · exact hs

theorem depth_child {b c : Branch} {response : LLMResponse}
    (h : c ∈ childBranches a isDigit b response) : c.node.depth = b.node.depth + 1 := by
  unfold childBranches childrenOf at h
  rw [List.map_map] at h
  obtain ⟨thought, -, rfl⟩ := List.mem_map.mp h
  rfl

/-! ## The stack and the recursion -/

/-! ## Sound branches -/

/-- The chain of a branch is that of its node, not longer than the depth allows, and every node
on it has a value above the threshold. -/
structure Sound (b : Branch) : Prop where
  chain : b.node.chain = b.nodes.map (·.thought)
  depth : b.node.depth = b.parents.length
  bounded : (b.node.depth : Int) ≤ a.totMaxDepth
  values : ∀ node ∈ b.nodes, impossibleThreshold < node.value

/-- The branch is an evaluated child of the other one. -/
def Sprung (b c : Branch) : Prop :=
  ∃ response, ∃ child ∈ childBranches a isDigit b response, Evaluated child c

variable {a isDigit problem}

theorem sound_root (hdepth : 1 ≤ a.totMaxDepth) : Sound a (rootBranch problem) := by
  refine ⟨rfl, rfl, ?_, fun node hnode => ?_⟩
  · change ((0 : Nat) : Int) ≤ _
    omega
  · rw [List.mem_singleton.mp hnode]
    norm_num [root, rootBranch, impossibleThreshold]

theorem Sound.finish {b : Branch} (h : Sound a b) : Sound a b.finish := by
  refine ⟨?_, h.depth, h.bounded, fun node hnode => ?_⟩
  · have hchain := h.chain
    unfold Branch.nodes at hchain ⊢
    rw [List.map_append] at hchain ⊢
    exact hchain
  · rcases List.mem_append.mp hnode with hold | hnew
    · exact h.values node (List.mem_append_left _ hold)
    · rw [List.mem_singleton.mp hnew]
      exact h.values b.node (List.mem_append_right _ (List.mem_singleton_self _))

theorem sound_sprung {b c : Branch} (hb : Sound a b) (hdeep : (b.node.depth : Int) < a.totMaxDepth)
    (h : Sprung a isDigit b c) (hvalue : impossibleThreshold < c.node.value) : Sound a c := by
  obtain ⟨response, child, hchild, heval⟩ := h
  unfold childBranches childrenOf at hchild
  rw [List.map_map] at hchild
  obtain ⟨thought, -, rfl⟩ := List.mem_map.mp hchild
  have hparents : c.parents = b.nodes := heval.parents
  have hdepth : c.node.depth = b.node.depth + 1 := heval.depth
  have habove : c.node.above = b.node.chain := heval.above
  refine ⟨?_, ?_, ?_, fun node hnode => ?_⟩
  · unfold ThoughtNode.chain
    rw [habove, hb.chain, Branch.nodes.eq_def c, hparents, List.map_append]
    rfl
  · rw [hdepth, hparents, hb.depth, Branch.nodes, List.length_append, List.length_singleton]
  · rw [hdepth]
    omega
  · rw [Branch.nodes, hparents] at hnode
    rcases List.mem_append.mp hnode with hold | hnew
    · exact hb.values node hold
    · rw [List.mem_singleton.mp hnew]
      exact hvalue

/-- A child ends a search with the highest value only. -/
theorem value_of_end {b c : Branch} (h : Sprung a isDigit b c) (hend : c.node.isTerminal = true) :
    impossibleThreshold < c.node.value := by
  obtain ⟨response, child, hchild, heval⟩ := h
  unfold childBranches childrenOf at hchild
  rw [List.map_map] at hchild
  obtain ⟨thought, -, rfl⟩ := List.mem_map.mp hchild
  rcases heval.ends hend with hfalse | hone
  · cases hfalse
  · rw [hone]
    norm_num [impossibleThreshold]

/-! ## What a search asks -/

/-- The nodes that a question asks to expand. -/
def expanded : Ask → Nat
  | .complete .generating requests => requests.length
  | _ => 0

def expansions (trace : Trace) : Nat := (trace.map fun e => expanded e.1).sum

/-- The terms of a search: its history is all that was asked and answered. -/
def searching (may : Trace → Ask → Prop) : Terms Ask Answer Trace where
  note h e := h ++ [e]
  given _ _ := True
  may := may

theorem foldl_note (may : Trace → Ask → Prop) (h trace : Trace) :
    trace.foldl (searching may).note h = h ++ trace := by
  induction trace generalizing h with
  | nil => simp
  | cons e trace ih =>
    rw [List.foldl_cons, ih]
    simp [searching]

theorem honest (may : Trace → Ask → Prop) (h trace : Trace) : (searching may).Honest h trace := by
  induction trace generalizing h with
  | nil => trivial
  | cons e trace ih => exact ⟨trivial, ih _⟩

theorem keeps_gather {α : Type} {may : Trace → Ask → Prop} {post : Trace → Except Raised α → Prop}
    {h : Trace} {site : Site} {requests : List Request}
    {f : List (Except Raised LLMResponse) → Code α} (hmay : may h (.complete site requests))
    (hnext : ∀ answers, Keeps (searching may) post (h ++ [⟨.complete site requests, answers⟩])
      (f (List.ofFn answers))) :
    Keeps (searching may) post h (gather site requests >>= f) :=
  ⟨hmay, fun answers _ => hnext answers⟩

theorem keeps_complete {α : Type} {may : Trace → Ask → Prop} {post : Trace → Except Raised α → Prop}
    {h : Trace} {site : Site} {request : Request} {f : LLMResponse → Code α}
    (hmay : may h (.complete site [request]))
    (hok : ∀ answers response, answers (0 : Fin 1) = .ok response →
      Keeps (searching may) post (h ++ [⟨.complete site [request], answers⟩]) (f response))
    (herror : ∀ answers e, answers (0 : Fin 1) = .error e →
      post (h ++ [⟨.complete site [request], answers⟩]) (.error e)) :
    Keeps (searching may) post h (complete site request >>= f) := by
  rw [complete_bind]
  refine ⟨hmay, fun answers _ => ?_⟩
  dsimp only
  rcases hanswer : answers (0 : Fin 1) with e | response
  · exact herror answers e hanswer
  · exact hok answers response hanswer

/-- How a turn of `while stack` ends. -/
inductive Turned (a : TreeOfThoughtsAgent) (isDigit : Char → Bool) (s : DfsState) (h : Trace) :
    Except Raised (DfsState ⊕ (Option Branch × TokenUsage)) → Prop
  | empty (hstack : s.stack = []) : Turned a isDigit s h (.ok (.inr (s.best, s.usage)))
  | leaf {b : Branch} {stack : List Branch} {best : Option Branch} (hstack : s.stack = b :: stack)
    (hbest : best = s.best ∨ best = some b.finish) :
    Turned a isDigit s h (.ok (.inl ⟨stack, best, s.usage⟩))
  | found {b c : Branch} {stack : List Branch} {usage : TokenUsage} (hstack : s.stack = b :: stack)
    (hinner : ¬ AtEnd a b)
    (hbest : s.best = some c ∨ Sprung a isDigit b c ∧ c.node.isTerminal = true) :
    Turned a isDigit s h (.ok (.inr (some c, usage)))
  | pushes {b : Branch} {stack pushed : List Branch} {usage : TokenUsage}
    (hstack : s.stack = b :: stack) (hinner : ¬ AtEnd a b)
    (hpushed : ∀ c ∈ pushed, Sprung a isDigit b c ∧ impossibleThreshold < c.node.value) :
    Turned a isDigit s h (.ok (.inl ⟨pushed ++ stack, none, usage⟩))
  | fails {e : Raised} {request : Request}
    {answers : Answer (.complete .generating [request])}
    (hmem : ⟨.complete .generating [request], answers⟩ ∈ h)
    (herror : answers (0 : Fin 1) = .error e) : Turned a isDigit s h (.error e)

theorem keeps_turn (s : DfsState) :
    Keeps (searching fun _ _ => True) (Turned a isDigit s) [] (turn a isDigit problem s) := by
  obtain ⟨stack, best, usage⟩ := s
  cases stack with
  | nil => exact Turned.empty rfl
  | cons b stack =>
    unfold turn
    dsimp only
    split
    · refine Turned.leaf rfl ?_
      split
      · exact Or.inr rfl
      · exact Or.inl rfl
    · rename_i hinner
      refine keeps_complete trivial (fun answers response _ => ?_) (fun answers e herror =>
        Turned.fails (List.mem_append_right _ (List.mem_singleton_self _)) herror)
      rw [evaluateBranches_bind]
      refine keeps_gather trivial fun ratings => ?_
      have hsprung : ∀ e ∈ evaluated (childBranches a isDigit b response)
          (evaluations ((childBranches a isDigit b response).map (·.node)) (List.ofFn ratings)),
          Sprung a isDigit b e.1 := fun e he => ⟨response, evaluated_of_mem he⟩
      obtain ⟨hviable, hbest⟩ := assess_rule
        (V := fun c => Sprung a isDigit b c ∧ impossibleThreshold < c.node.value)
        (B := fun c => best = some c ∨ Sprung a isDigit b c ∧ c.node.isTerminal = true)
        (fun e he hvalue => ⟨hsprung e he, hvalue⟩)
        (fun e he hend => Or.inr ⟨hsprung e he, hend⟩)
        (s := ⟨best, [], usage.add response.spent⟩) ⟨by simp, fun _ hb => Or.inl hb⟩
      generalize (evaluated _ _).foldl assessBranch _ = t at hviable hbest ⊢
      cases hfound : t.best with
      | some c => exact Turned.found rfl hinner (hbest c hfound)
      | none =>
        refine Turned.pushes rfl hinner fun c hc => hviable c ?_
        rwa [List.mem_reverse, List.mem_mergeSort] at hc

theorem turned {s : DfsState} {trace : Trace}
    {r : Except Raised (DfsState ⊕ (Option Branch × TokenUsage))}
    (h : Path (turn a isDigit problem s) trace (.done r)) : Turned a isDigit s trace r := by
  have hkept := (keeps_turn s).path h (honest _ [] trace)
  rw [foldl_note] at hkept
  exact hkept

/-! ## The depth-first search -/

/-- The loop comes to an end from a stack on, whatever else it holds. -/
def Ends (a : TreeOfThoughtsAgent) (isDigit : Char → Bool) (problem : String)
    (stack : List Branch) : Prop :=
  ∀ best usage, Terminates (turn a isDigit problem) ⟨stack, best, usage⟩

theorem ends_append {pushed stack : List Branch}
    (hpushed : ∀ c ∈ pushed, ∀ stack, Ends a isDigit problem stack →
      Ends a isDigit problem (c :: stack))
    (hstack : Ends a isDigit problem stack) : Ends a isDigit problem (pushed ++ stack) := by
  induction pushed with
  | nil => exact hstack
  | cons c pushed ih =>
    exact hpushed c List.mem_cons_self _ (ih fun d hd => hpushed d (List.mem_cons_of_mem c hd))

/-- The loop gets to what lies under a branch on the stack, by induction on the levels left. -/
theorem ends_cons (left : Nat) (b : Branch) (hleft : a.totMaxDepth ≤ b.node.depth + left)
    (stack : List Branch) (hstack : Ends a isDigit problem stack) :
    Ends a isDigit problem (b :: stack) := by
  induction left generalizing b stack with
  | zero =>
    intro best usage
    refine terminates_intro ?_
    rintro s' ⟨trace, hpath⟩
    cases turned hpath with
    | leaf hs =>
      cases hs
      exact hstack _ _
    | pushes hs hinner =>
      cases hs
      exact absurd (Or.inl (by simpa using hleft)) hinner
  | succ left ih =>
    intro best usage
    refine terminates_intro ?_
    rintro s' ⟨trace, hpath⟩
    cases turned hpath with
    | leaf hs =>
      cases hs
      exact hstack _ _
    | pushes hs hinner hpushed =>
      cases hs
      refine ends_append (fun c hc stack hstack => ih c ?_ stack hstack) hstack _ _
      obtain ⟨⟨response, child, hchild, heval⟩, -⟩ := hpushed c hc
      rw [heval.depth, depth_child a isDigit hchild]
      omega

theorem terminates_dfs : Terminates (turn a isDigit problem) (start problem) := by
  refine ends_cons a.totMaxDepth.toNat (rootBranch problem) ?_ [] (fun best usage => ?_) _ _
  · change _ ≤ ((0 : Nat) : Int) + _
    omega
  · refine terminates_intro ?_
    rintro s' ⟨trace, hpath⟩
    cases turned hpath with
    | leaf hs => cases hs
    | pushes hs => cases hs

/-- The branch that a search returns is sound, and an error is one of the model. -/
def Outcome (a : TreeOfThoughtsAgent) (trace : Trace) :
    Except Raised (Option Branch × TokenUsage) → Prop
  | .ok found => ∀ b, found.1 = some b → Sound a b
  | .error e => ∃ (request : Request) (answers : Answer (.complete .generating [request])),
      ⟨.complete .generating [request], answers⟩ ∈ trace ∧ ∃ i, answers i = .error e

/-- All branches that the loop holds are sound. -/
structure SoundState (a : TreeOfThoughtsAgent) (s : DfsState) : Prop where
  stack : ∀ b ∈ s.stack, Sound a b
  best : ∀ b, s.best = some b → Sound a b

theorem SoundState.turn {s s' : DfsState} {trace : Trace} (hs : SoundState a s)
    (h : Turned a isDigit s trace (.ok (.inl s'))) : SoundState a s' := by
  cases h with
  | leaf hstack hbest =>
    have hall := hs.stack
    rw [hstack] at hall
    refine ⟨fun c hc => hall c (List.mem_cons_of_mem _ hc), fun c hc => ?_⟩
    rcases hbest with rfl | rfl
    · exact hs.best c hc
    · cases hc
      exact (hall _ List.mem_cons_self).finish
  | pushes hstack hinner hpushed =>
    have hall := hs.stack
    rw [hstack] at hall
    refine ⟨fun c hc => ?_, fun c hc => by cases hc⟩
    rcases List.mem_append.mp hc with hnew | hold
    · obtain ⟨hsprung, hvalue⟩ := hpushed c hnew
      have hdeep := Int.not_le.mp fun hle => hinner (Or.inl hle)
      exact sound_sprung (hall _ List.mem_cons_self) hdeep hsprung hvalue
    · exact hall c (List.mem_cons_of_mem _ hold)

theorem SoundState.ends {s : DfsState} {trace : Trace} {found : Option Branch × TokenUsage}
    (hs : SoundState a s) (h : Turned a isDigit s trace (.ok (.inr found))) :
    ∀ b, found.1 = some b → Sound a b := by
  cases h with
  | empty => exact hs.best
  | found hstack hinner hbest =>
    intro c hc
    cases hc
    rcases hbest with hold | ⟨hsprung, hend⟩
    · exact hs.best _ hold
    · have hdeep := Int.not_le.mp fun hle => hinner (Or.inl hle)
      exact sound_sprung (hs.stack _ (hstack ▸ List.mem_cons_self)) hdeep hsprung
        (value_of_end hsprung hend)

theorem Outcome.earlier {trace : Trace} {r : Except Raised (Option Branch × TokenUsage)}
    (h : Outcome a trace r) (before : Trace) : Outcome a (before ++ trace) r := by
  cases r with
  | error e =>
    obtain ⟨request, answers, hmem, herror⟩ := h
    exact ⟨request, answers, List.mem_append_right _ hmem, herror⟩
  | ok found => exact h

theorem outcome_dfs {s : DfsState} {trace : Trace} {r : Except Raised (Option Branch × TokenUsage)}
    (h : Loop (turn a isDigit problem) s trace r) (hs : SoundState a s) : Outcome a trace r := by
  refine h.invariant (fun s s' t hs hpath => ?_) (fun s t found hs hpath => ?_)
    (fun s t e _ hpath => ?_) (fun t u r hr => hr.earlier t) hs
  · exact hs.turn (turned hpath)
  · exact hs.ends (turned hpath)
  · cases turned hpath with
    | fails hmem herror => exact ⟨_, _, hmem, 0, herror⟩

/-! ## The breadth-first search -/

theorem sprung_of_expand {frontier : List Branch} {answers : List (Except Raised LLMResponse)}
    {c : Branch} (h : c ∈ expandBranches a isDigit frontier answers) :
    ∃ b ∈ frontier, ∃ response, c ∈ childBranches a isDigit b response := by
  unfold expandBranches at h
  obtain ⟨children, hchildren, hc⟩ := List.mem_flatten.mp h
  obtain ⟨i, hi, rfl⟩ := List.getElem_of_mem hchildren
  rw [List.getElem_zipWith] at hc
  split at hc
  · exact ⟨_, List.getElem_mem _, _, hc⟩
  · cases hc

theorem mem_bestBranch {frontier : List Branch} {b : Branch} (h : bestBranch frontier = some b) :
    ∃ c ∈ frontier, b = c.finish := by
  have hfold : ∀ (rest : List Branch) best c, (∀ d, best = some d → d ∈ frontier) →
      (∀ d ∈ rest, d ∈ frontier) → rest.foldl betterBranch best = some c → c ∈ frontier := by
    intro rest
    induction rest with
    | nil => exact fun best c hbest _ hc => hbest c hc
    | cons d rest ih =>
      intro best c hbest hrest hc
      refine ih (betterBranch best d) c (fun d' hd' => ?_)
        (fun d' hd' => hrest d' (List.mem_cons_of_mem d hd')) hc
      have hd := hrest d List.mem_cons_self
      unfold betterBranch at hd'
      split at hd'
      · cases hd'
        exact hd
      · split at hd'
        · cases hd'
          exact hd
        · exact hbest d' hd'
  unfold bestBranch at h
  obtain ⟨c, hc, rfl⟩ := Option.map_eq_some_iff.mp h
  exact ⟨c, hfold frontier none c (by simp) (fun _ hd => hd) hc, rfl⟩

/-- The search may ask so many questions, and expand so many nodes. -/
def Within (calls nodes : Nat) (h : Trace) (q : Ask) : Prop :=
  h.length + 1 ≤ calls ∧ expansions h + expanded q ≤ nodes

/-- The search ends without an error, and what it returns is sound. -/
def Found (a : TreeOfThoughtsAgent) (_ : Trace) :
    Except Raised (Option Branch × TokenUsage) → Prop
  | .ok found => ∀ b, found.1 = some b → Sound a b
  | .error _ => False

theorem length_sliceTo {α : Type} {k : Int} (hk : 0 ≤ k) (xs : List α) :
    (sliceTo xs k).length ≤ k.toNat := by
  unfold sliceTo
  rw [if_pos hk]
  exact List.length_take_le _ _

theorem mem_of_mem_sliceTo {α : Type} {k : Int} {xs : List α} {x : α} (h : x ∈ sliceTo xs k) :
    x ∈ xs := by
  unfold sliceTo at h
  split at h
  · exact List.mem_of_mem_take h
  · exact List.mem_of_mem_take h

theorem expansions_append (h : Trace) (e : Answered Ask Answer) :
    expansions (h ++ [e]) = expansions h + expanded e.1 := by
  simp [expansions]

/-- The assessment of a level: what is kept of it is sound and one level deeper than the
frontier, and what ends the search there is sound. -/
theorem assess_level {left : Nat} {frontier : List Branch}
    (answers ratings : List (Except Raised LLMResponse)) (usage : TokenUsage)
    {es : List BranchEvaluation}
    (hes : es = evaluated (expandBranches a isDigit frontier answers)
      (evaluations ((expandBranches a isDigit frontier answers).map (·.node)) ratings))
    (hsound : ∀ b ∈ frontier, Sound a b)
    (hdeep : ∀ b ∈ frontier, (b.node.depth : Int) + (left + 1 : Nat) ≤ a.totMaxDepth) :
    (∀ c ∈ (es.foldl assessBranch ⟨none, [], usage⟩).viable,
        Sound a c ∧ (c.node.depth : Int) + left ≤ a.totMaxDepth) ∧
      ∀ c, (es.foldl assessBranch ⟨none, [], usage⟩).best = some c → Sound a c := by
  have hsprout : ∀ e ∈ es, ∃ b ∈ frontier, Sprung a isDigit b e.1 ∧
      e.1.node.depth = b.node.depth + 1 := by
    intro e he
    rw [hes] at he
    obtain ⟨c, hc, heval⟩ := evaluated_of_mem he
    obtain ⟨b, hb, response, hchild⟩ := sprung_of_expand hc
    exact ⟨b, hb, ⟨response, c, hchild, heval⟩,
      heval.depth.trans (depth_child a isDigit hchild)⟩
  refine assess_rule (fun e he hvalue => ?_) (fun e he hend => ?_) ⟨by simp, by simp⟩
  · obtain ⟨b, hb, hsprung, hdepth⟩ := hsprout e he
    have hlow := hdeep b hb
    exact ⟨sound_sprung (hsound b hb) (by omega) hsprung hvalue, by omega⟩
  · obtain ⟨b, hb, hsprung, -⟩ := hsprout e he
    have hlow := hdeep b hb
    exact sound_sprung (hsound b hb) (by omega) hsprung (value_of_end hsprung hend)

/-- From a frontier on: two questions a level at most, and no more nodes than the frontier and the
beam of the levels after this one. -/
theorem keeps_bfs (hbeam : 0 ≤ a.totBeam) {calls nodes : Nat} (left : Nat)
    (frontier : List Branch) (usage : TokenUsage) (h : Trace)
    (hcalls : h.length + 2 * left ≤ calls)
    (hnodes : left ≠ 0 → expansions h + frontier.length + a.totBeam.toNat * (left - 1) ≤ nodes)
    (hsound : ∀ b ∈ frontier, Sound a b)
    (hdeep : ∀ b ∈ frontier, (b.node.depth : Int) + left ≤ a.totMaxDepth) :
    Keeps (searching (Within calls nodes)) (Found a) h
      (bfsBranches a isDigit problem left frontier usage) := by
  have hbest : ∀ b, bestBranch frontier = some b → Sound a b := by
    intro b hb
    obtain ⟨c, hc, rfl⟩ := mem_bestBranch hb
    exact (hsound c hc).finish
  induction left generalizing frontier usage h with
  | zero => exact hbest
  | succ left ih =>
    have hlevel := hnodes (Nat.succ_ne_zero left)
    rw [Nat.add_sub_cancel] at hlevel
    unfold bfsBranches
    refine keeps_gather ⟨by omega, ?_⟩ (fun answers => ?_)
    · change _ + (frontier.map _).length ≤ _
      rw [List.length_map]
      omega
    dsimp only
    split
    · exact hbest
    · rw [evaluateBranches_bind]
      refine keeps_gather ⟨?_, ?_⟩ (fun ratings => ?_)
      · rw [List.length_append, List.length_singleton]
        omega
      · rw [expansions_append]
        change _ + (frontier.map _).length + 0 ≤ _
        rw [List.length_map]
        omega
      obtain ⟨hviable, hends⟩ := assess_level (List.ofFn answers) (List.ofFn ratings)
        (usageOf (List.ofFn answers) usage) rfl hsound hdeep
      generalize (evaluated _ _).foldl assessBranch _ = t at hviable hends ⊢
      cases hfound : t.best with
      | some c =>
        intro b hb
        cases hb
        exact hends c hfound
      | none =>
        dsimp only
        split
        · intro b hb
          cases hb
        · have hmem : ∀ c ∈ sliceTo (t.viable.mergeSort
              fun x y => y.node.value ≤ x.node.value) a.totBeam, c ∈ t.viable :=
            fun c hc => List.mem_mergeSort.mp (mem_of_mem_sliceTo hc)
          have hlength := length_sliceTo hbeam
            (t.viable.mergeSort fun x y => y.node.value ≤ x.node.value)
          refine ih _ _ _ ?_ (fun hne => ?_) (fun c hc => (hviable c (hmem c hc)).1)
            (fun c hc => (hviable c (hmem c hc)).2) (fun b hb => ?_)
          · rw [List.length_append, List.length_append, List.length_singleton,
              List.length_singleton]
            omega
          · obtain ⟨more, rfl⟩ := Nat.exists_eq_succ_of_ne_zero hne
            rw [expansions_append, expansions_append]
            change expansions h + (frontier.map _).length + 0 + _ + _ ≤ _
            rw [List.length_map, Nat.succ_sub_one]
            rw [Nat.mul_succ] at hlevel
            omega
          · obtain ⟨c, hc, rfl⟩ := mem_bestBranch hb
            exact (hviable c (hmem c hc)).1.finish

theorem path_bfs (hbeam : 1 ≤ a.totBeam) (hdepth : 1 ≤ a.totMaxDepth) {trace : Trace}
    {p : Code (Option Branch × TokenUsage)} (h : Path (bfsSearch a isDigit problem) trace p) :
    (trace.length ≤ 2 * a.totMaxDepth.toNat ∧
      expansions trace ≤ 1 + a.totBeam.toNat * (a.totMaxDepth.toNat - 1)) ∧
        ∀ r, p = .done r → Found a trace r := by
  have hkept : Keeps (searching (Within (2 * a.totMaxDepth.toNat)
      (1 + a.totBeam.toNat * (a.totMaxDepth.toNat - 1)))) (Found a) []
      (bfsSearch a isDigit problem) := by
    refine keeps_bfs (by omega) _ _ _ _ (by simp) (fun _ => by simp [expansions])
      (fun b hb => ?_) (fun b hb => ?_)
    · rw [List.mem_singleton.mp hb]
      exact sound_root hdepth
    · rw [List.mem_singleton.mp hb]
      change ((0 : Nat) : Int) + _ ≤ _
      omega
  constructor
  · have hwithin := hkept.history h (honest _ [] trace)
      (I := fun h => h.length ≤ 2 * a.totMaxDepth.toNat ∧
        expansions h ≤ 1 + a.totBeam.toNat * (a.totMaxDepth.toNat - 1))
      (fun h e _ hmay _ => ?_) ⟨Nat.zero_le _, Nat.zero_le _⟩
    · rwa [foldl_note] at hwithin
    · change (h ++ [e]).length ≤ _ ∧ expansions (h ++ [e]) ≤ _
      rw [List.length_append, List.length_singleton, expansions_append]
      exact hmay
  · rintro r rfl
    have hend := hkept.path h (honest _ [] trace)
    rw [foldl_note] at hend
    exact hend

/-- Whatever the model answers, both searches come to an end: no run of turns of the depth-first
loop goes on for ever, and the breadth-first search asks two questions a level at most. The branch
that a search returns is sound, an error is one of the model, and breadth first no more nodes are
expanded than the root and a beam for each level below it. -/
theorem search_is_bounded (hbeam : 1 ≤ a.totBeam) (hdepth : 1 ≤ a.totMaxDepth)
    (isDigit : Char → Bool) (problem : String) :
    (Terminates (turn a isDigit problem) (start problem) ∧
      (∀ reply, ∃ trace r, Loop (turn a isDigit problem) (start problem) trace r ∧
        Replies reply [] trace) ∧
      ∀ trace r, Loop (turn a isDigit problem) (start problem) trace r → Outcome a trace r) ∧
    (∀ reply, ∃ trace r, Path (bfsSearch a isDigit problem) trace (.done r) ∧
      Replies reply [] trace) ∧
    ∀ trace p, Path (bfsSearch a isDigit problem) trace p →
      trace.length ≤ 2 * a.totMaxDepth.toNat ∧
      (expansions trace : Int) ≤ 1 + a.totBeam * (a.totMaxDepth - 1) ∧
      ∀ r, p = .done r → Outcome a trace r := by
  have hstart : SoundState a (start problem) := by
    refine ⟨fun b hb => ?_, fun b hb => by cases hb⟩
    rw [List.mem_singleton.mp hb]
    exact sound_root hdepth
  refine ⟨⟨terminates_dfs, fun reply => terminates_dfs.exists_end reply [],
    fun trace r h => outcome_dfs h hstart⟩, fun reply => exists_end reply _ [],
    fun trace p h => ?_⟩
  obtain ⟨⟨hlength, hexpanded⟩, hfound⟩ := path_bfs hbeam hdepth h
  refine ⟨hlength, ?_, fun r hr => ?_⟩
  · have hcast : ((1 + a.totBeam.toNat * (a.totMaxDepth.toNat - 1) : Nat) : Int) =
        1 + a.totBeam * (a.totMaxDepth - 1) := by
      rw [Nat.cast_add, Nat.cast_mul, Int.toNat_of_nonneg (by omega), Nat.cast_sub (by omega),
        Int.toNat_of_nonneg (by omega)]
      rfl
    rw [← hcast]
    exact_mod_cast hexpanded
  · have hend := hfound r hr
    rcases r with e | found
    · exact hend.elim
    · exact hend

/-- A search of the default breadth, beam and depth. -/
def planner : TreeOfThoughtsAgent where
  name := "planner"
  model := none
  systemPrompt := ""
  tools := []
  acl := none
  maxIterations := 10
  temperature := 7 / 10
  structured := none
  totBreadth := 3
  totBeam := 2
  totMaxDepth := 4
  totStrategy := .bfs
  totTemperature := 7 / 10
  evalTemperature := 0

theorem a_plan_is_found_in_time :
    (Terminates (turn planner (·.isDigit) "plan") (start "plan") ∧
      (∀ reply, ∃ trace r, Loop (turn planner (·.isDigit) "plan") (start "plan") trace r ∧
        Replies reply [] trace) ∧
      ∀ trace r, Loop (turn planner (·.isDigit) "plan") (start "plan") trace r →
        Outcome planner trace r) ∧
    (∀ reply, ∃ trace r, Path (bfsSearch planner (·.isDigit) "plan") trace (.done r) ∧
      Replies reply [] trace) ∧
    ∀ trace p, Path (bfsSearch planner (·.isDigit) "plan") trace p →
      trace.length ≤ 2 * planner.totMaxDepth.toNat ∧
      (expansions trace : Int) ≤ 1 + planner.totBeam * (planner.totMaxDepth - 1) ∧
      ∀ r, p = .done r → Outcome planner trace r :=
  search_is_bounded (by decide) (by decide) (·.isDigit) "plan"

end orchestra.thought_search
