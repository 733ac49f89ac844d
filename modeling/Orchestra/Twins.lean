-- Two graphs of one shape whose nodes answer alike: a graph and the same graph
-- without its interrupt flags, or a graph in two contexts. Whoever sees which
-- nodes are called, and what comes out in the end, cannot tell them apart.
import Orchestra.Runs
import Orchestra.Turns

open dicts logged machine orchestra.state orchestra.edges orchestra.events orchestra.nodes
open orchestra.compiled orchestra.turns orchestra.runs

namespace orchestra.twins

variable {schema : Option Schema}

/-! ## Nodes that answer alike -/

/-- What the answer of a node may depend on, apart from the state. -/
structure SameMode (c d : Ctx) : Prop where
  config : c.config = d.config
  restrictedMode : c.restrictedMode = d.restrictedMode
  replayEvents : c.replayEvents = d.replayEvents
  hasBus : c.hasBus = d.hasBus

theorem SameMode.refl (c : Ctx) : SameMode c c := ⟨rfl, rfl, rfl, rfl⟩

theorem SameMode.cloneForBranch {c d : Ctx} (h : SameMode c d) (nodeId : String) (i : Nat) :
    SameMode (c.cloneForBranch nodeId i) (d.cloneForBranch nodeId i) :=
  ⟨h.config, h.restrictedMode, h.replayEvents, h.hasBus⟩

/-- The two nodes give the same update for the same state. -/
def AnswersLike (schema : Option Schema) (nodeId : String) (n m : GraphNode) : Prop :=
  ∀ state c d, SameMode c d →
    (executeNode schema nodeId n state c).result = (executeNode schema nodeId m state d).result

/-- Each node gives one answer for a state: it does not matter when in the run
it is called, nor how often it was called before. -/
def Deterministic (G : CompiledGraph) : Prop :=
  ∀ nodeId node, G.nodes.get? nodeId = some node → AnswersLike G.schema nodeId node node

/-- A function that does not look at the moment of its call. -/
theorem answersLike_function (nodeId : String) {n : FunctionNode}
    (h : ∀ state a b, n.func state a = n.func state b) :
    AnswersLike schema nodeId (.function n) (.function n) := by
  intro state c d hcd
  have hfunc := h state c.moment d.moment
  rcases hresult : n.func state d.moment with e | update
  · rw [hresult] at hfunc
    simp only [executeNode, hfunc, hresult]
    rfl
  · rw [hresult] at hfunc
    simp only [executeNode, hfunc, hresult, hcd.restrictedMode]

/-- Two tables of nodes with the same ids, whose nodes answer alike. -/
structure Twins (schema : Option Schema) (ns ms : Dict String GraphNode) : Prop where
  keys : ns.keys = ms.keys
  answers : ∀ nodeId n m, ns.get? nodeId = some n → ms.get? nodeId = some m →
    AnswersLike schema nodeId n m

/-- The same graph with other nodes. -/
@[reducible] def withNodes (G : CompiledGraph) (ms : Dict String GraphNode) : CompiledGraph :=
  { G with nodes := ms }

theorem Twins.some {ns ms : Dict String GraphNode} (h : Twins schema ns ms) {nodeId : String}
    {n : GraphNode} (hn : ns.get? nodeId = some n) :
    ∃ m, ms.get? nodeId = some m ∧ AnswersLike schema nodeId n m := by
  have hmem : nodeId ∈ ns.keys := (Dict.mem_keys_iff _ _).mpr ⟨n, hn⟩
  rw [h.keys] at hmem
  obtain ⟨m, hm⟩ := (Dict.mem_keys_iff _ _).mp hmem
  exact ⟨m, hm, h.answers nodeId n m hn hm⟩

theorem Twins.none {ns ms : Dict String GraphNode} (h : Twins schema ns ms) {nodeId : String}
    (hn : ns.get? nodeId = none) : ms.get? nodeId = none := by
  rw [Dict.get?_eq_none_iff] at hn ⊢
  rwa [← h.keys]

/-- Who sees which nodes are called cannot tell the two computations apart. -/
abbrev LooksLike {α β : Type} (R : α → β → Prop) (x : Eng α) (y : Eng β) : Prop :=
  Logged.Alike Note.ran? R x y

theorem looksLike_executeNode {nodeId : String} {n m : GraphNode}
    (h : AnswersLike schema nodeId n m) (state : PyDict) {c d : Ctx} (hcd : SameMode c d) :
    LooksLike (· = ·) (executeNode schema nodeId n state c)
      (executeNode schema nodeId m state d) := by
  refine ⟨?_, Logged.agree_eq.mpr (h state c d hcd)⟩
  have hn := ranNodes_executeNode schema nodeId n state c
  have hm := ranNodes_executeNode schema nodeId m state d
  exact hn.trans hm.symm

/-! ## Fan-out -/

/-- Two branches with the same id and the same state, whose nodes answer alike. -/
structure BranchLike (schema : Option Schema) (a b : Branch) : Prop where
  nodeId : a.nodeId = b.nodeId
  state : a.state = b.state
  answers : AnswersLike schema a.nodeId a.node b.node

/-- Branches start in the order in which they were created. -/
def Env.StartsInOrder (env : Env) : Prop :=
  ∀ logs, (∀ log ∈ logs, ∃ nodeId inside, log = .ran nodeId :: inside ∧ ranNodes inside = []) →
    ranNodes (env.gather logs) = ranNodes logs.flatten

theorem startsInOrder_inOrder : Env.StartsInOrder inOrder := fun _ _ => rfl

theorem forall₂_mapIdx {α β γ δ : Type} {R : α → β → Prop} {T : γ → δ → Prop} {l : List α}
    {l' : List β} (h : List.Forall₂ R l l') {f : Nat → α → γ} {g : Nat → β → δ}
    (hfg : ∀ i a b, R a b → T (f i a) (g i b)) :
    List.Forall₂ T (l.mapIdx f) (l'.mapIdx g) := by
  induction h generalizing f g with
  | nil => exact .nil
  | cons hab _ ih =>
    rw [List.mapIdx_cons, List.mapIdx_cons]
    exact .cons (hfg 0 _ _ hab) (ih (fun i => hfg (i + 1)))

theorem runBranches_alike {bs bs' : List Branch} (h : List.Forall₂ (BranchLike schema) bs bs')
    {c d : Ctx} (hcd : SameMode c d) :
    List.Forall₂ (LooksLike (· = ·)) (runBranches schema c bs) (runBranches schema d bs') := by
  refine forall₂_mapIdx h (fun i a b hab => ?_)
  rw [← hab.nodeId, ← hab.state]
  exact looksLike_executeNode hab.answers a.state (hcd.cloneForBranch a.nodeId i)

/-- What the branches leave behind, as an observer sees it. -/
theorem branches_alike {xs ys : List (Eng (PyDict × Bool))}
    (h : List.Forall₂ (LooksLike (· = ·)) xs ys) :
    xs.filterMap errorOf = ys.filterMap errorOf ∧ xs.filterMap updateOf = ys.filterMap updateOf ∧
      ranNodes (xs.map (·.log)).flatten = ranNodes (ys.map (·.log)).flatten := by
  induction h with
  | nil => exact ⟨rfl, rfl, rfl⟩
  | @cons x y xs ys hxy _ ih =>
    obtain ⟨herrors, hupdates, hran⟩ := ih
    have hresult := Logged.agree_eq.mp hxy.result
    have hlog : ranNodes x.log = ranNodes y.log := hxy.log
    refine ⟨?_, ?_, ?_⟩
    · simp only [List.filterMap_cons, errorOf, hresult, herrors]
    · simp only [List.filterMap_cons, updateOf, hresult, hupdates]
    · simp only [List.map_cons, List.flatten_cons, ranNodes_append, hlog, hran]

theorem ranNodes_gather (schema : Option Schema) {env : Env} (henv : Env.StartsInOrder env)
    (c : Ctx) (bs : List Branch) :
    ranNodes (env.gather ((runBranches schema c bs).map (·.log))) =
      ranNodes ((runBranches schema c bs).map (·.log)).flatten := by
  apply henv
  intro log hlog
  obtain ⟨x, hx, rfl⟩ := List.mem_map.mp hlog
  obtain ⟨i, hi, rfl⟩ := List.mem_mapIdx.mp hx
  obtain ⟨inside, hinside, heq, -⟩ := log_executeNode schema (bs[i]).nodeId (bs[i]).node
    (bs[i]).state (c.cloneForBranch (bs[i]).nodeId i)
  exact ⟨_, inside, heq, List.filterMap_eq_nil_iff.mpr (fun n hn => (hinside n hn).2)⟩

theorem looksLike_fanOut {env env' : Env} (henv : Env.StartsInOrder env)
    (henv' : Env.StartsInOrder env') {c d : Ctx} (hcd : SameMode c d)
    (f : List EngineError → EngineError) {bs bs' : List Branch}
    (h : List.Forall₂ (BranchLike schema) bs bs') (state : WorkflowState schema) :
    LooksLike (· = ·) (fanOut env c f bs state) (fanOut env' d f bs' state) := by
  obtain ⟨herrors, hupdates, hran⟩ := branches_alike (runBranches_alike h hcd)
  refine ⟨?_, Logged.agree_eq.mpr ?_⟩
  · have hleft := ranNodes_gather schema henv c bs
    have hright := ranNodes_gather schema henv' d bs'
    exact hleft.trans (hran.trans hright.symm)
  · simp only [fanOut, Logged.notes, herrors, hupdates]

/-! ## The way out of a node -/

section

variable {G : CompiledGraph} {ms : Dict String GraphNode} {env env' : Env} {c d : Ctx}

/-- A node that a lookup found in both tables. -/
def FoundLike (schema : Option Schema) (x y : String × GraphNode) : Prop :=
  x.1 = y.1 ∧ AnswersLike schema x.1 x.2 y.2

theorem lookupNodes_alike (h : Twins G.schema G.nodes ms) (targets : List Target) :
    Logged.Agree (List.Forall₂ (FoundLike G.schema)) (lookupNodes G targets)
      (lookupNodes (withNodes G ms) targets) := by
  induction targets with
  | nil => exact .nil
  | cons t rest ih =>
    cases t with
    | END => rfl
    | node id =>
      rcases hn : G.nodes.get? id with _ | n
      · simp only [lookupNodes, hn, h.none hn]
        rfl
      · obtain ⟨m, hm, hnm⟩ := h.some hn
        simp only [lookupNodes, hn, hm]
        rcases hl : lookupNodes G rest with e | found
        · rw [Logged.agree_error ih hl]
          rfl
        · obtain ⟨found', hl', hfound⟩ := Logged.agree_ok ih hl
          rw [hl']
          exact .cons ⟨rfl, hnm⟩ hfound

theorem looksLike_executeParallel (h : Twins G.schema G.nodes ms) (henv : Env.StartsInOrder env)
    (henv' : Env.StartsInOrder env') (hcd : SameMode c d) (e : ParallelEdge) (stateDict : PyDict)
    (state : WorkflowState G.schema) :
    LooksLike (· = ·) (executeParallel G env c e stateDict state)
      (executeParallel (withNodes G ms) env' d e stateDict state) := by
  unfold executeParallel
  refine Logged.alike_bind (Logged.alike_ofExcept (lookupNodes_alike h e.targets)) ?_
  intro found found' _ _ hfound
  refine looksLike_fanOut henv henv' hcd parallelFailure ?_ state
  rw [List.forall₂_map_left_iff, List.forall₂_map_right_iff]
  exact hfound.imp (fun _ _ hxy => ⟨hxy.1, rfl, hxy.2⟩)

theorem looksLike_executeSends (h : Twins G.schema G.nodes ms) (henv : Env.StartsInOrder env)
    (henv' : Env.StartsInOrder env') (hcd : SameMode c d) (sends : List Send)
    (stateDict : PyDict) (state : WorkflowState G.schema) :
    LooksLike (· = ·) (executeSends G env c sends stateDict state)
      (executeSends (withNodes G ms) env' d sends stateDict state) := by
  unfold executeSends
  refine Logged.alike_bind (Logged.alike_ofExcept (lookupNodes_alike h _)) ?_
  intro found found' hf hf' hfound
  refine looksLike_fanOut henv henv' hcd sendFailure ?_ state
  clear hf hf'
  induction hfound generalizing sends with
  | nil => exact .nil
  | cons hxy _ ih =>
    cases sends with
    | nil => exact .nil
    | cons s rest => exact .cons ⟨hxy.1, rfl, hxy.2⟩ (ih rest)

theorem looksLike_handoff (hcd : SameMode c d) (e : HandoffEdge) (stateDict : PyDict)
    (state : WorkflowState schema) :
    LooksLike (· = ·) (handoff c e stateDict state) (handoff d e stateDict state) := by
  unfold handoff
  rw [hcd.hasBus]
  exact ⟨rfl, Logged.agree_eq.mpr rfl⟩

/-- The way out of a node is the same, for the same state and counters. -/
theorem looksLike_resolveNext (h : Twins G.schema G.nodes ms) (henv : Env.StartsInOrder env)
    (henv' : Env.StartsInOrder env') (hcd : SameMode c d) (hc : c.loopCounters = d.loopCounters)
    (nodeId : String) (stateDict : PyDict) (state : WorkflowState G.schema) :
    LooksLike (· = ·) (resolveNext G env c nodeId stateDict state)
      (resolveNext (withNodes G ms) env' d nodeId stateDict state) := by
  have hedges : (withNodes G ms).edgesFrom nodeId = G.edgesFrom nodeId := rfl
  unfold resolveNext
  rw [hedges, hc]
  split
  · exact Logged.alike_pure rfl
  · refine Logged.alike_bind (Logged.alike_ofExcept (Logged.agree_eq.mpr rfl)) ?_
    rintro ⟨result, counters⟩ _ _ _ rfl
    cases result with
    | next target => exact Logged.alike_pure rfl
    | sends sends =>
      refine Logged.alike_bind (looksLike_executeSends h henv henv' hcd sends _ state) ?_
      rintro s _ _ _ rfl
      exact Logged.alike_pure rfl
  · refine Logged.alike_bind (looksLike_executeParallel h henv henv' hcd _ _ state) ?_
    rintro s _ _ _ rfl
    exact Logged.alike_pure rfl
  · refine Logged.alike_bind (R := (· = ·)) ⟨rfl, Logged.agree_eq.mpr rfl⟩ ?_
    rintro picked _ _ _ rfl
    cases picked with
    | none => exact Logged.alike_pure rfl
    | some e =>
      refine Logged.alike_bind (looksLike_handoff hcd e stateDict state) ?_
      rintro s _ _ _ rfl
      exact Logged.alike_pure rfl

/-! ## One turn -/

/-- Two loops at the same node, with the same state. How many turns they took
to get there may differ. -/
structure InStep (L M : Loop schema) : Prop where
  current : L.current = M.current
  state : L.state = M.state
  mode : SameMode L.ctx M.ctx
  loopCounters : L.ctx.loopCounters = M.ctx.loopCounters

theorem looksLike_completeNode {nodeId : String} {n m : GraphNode}
    (hnm : AnswersLike schema nodeId n m) (state : WorkflowState schema) (hcd : SameMode c d)
    (hc : c.loopCounters = d.loopCounters) :
    LooksLike (fun x y => x.1 = y.1 ∧ SameMode x.2 y.2 ∧ x.2.loopCounters = y.2.loopCounters)
      (completeNode nodeId n state c) (completeNode nodeId m state d) := by
  unfold completeNode emit
  refine Logged.alike_bind (Logged.alike_note rfl) (fun _ _ _ _ _ => ?_)
  refine Logged.alike_bind (looksLike_executeNode hnm state.data hcd) ?_
  rintro ⟨update, mode⟩ _ _ _ rfl
  refine Logged.alike_bind (Logged.alike_ofExcept (Logged.agree_eq.mpr rfl)) ?_
  rintro s _ _ _ rfl
  refine Logged.alike_bind (Logged.alike_note rfl) (fun _ _ _ _ _ => ?_)
  refine Logged.alike_bind (Logged.alike_note rfl) (fun _ _ _ _ _ => ?_)
  exact Logged.alike_pure ⟨rfl, ⟨hcd.config, rfl, hcd.replayEvents, hcd.hasBus⟩, hc⟩

/-- Loops in step walk alike, and come out at the same node with the same state. -/
theorem looksLike_walk (h : Twins G.schema G.nodes ms) (henv : Env.StartsInOrder env)
    (henv' : Env.StartsInOrder env') {L M : Loop G.schema} (hLM : InStep L M) {n m : GraphNode}
    (hnm : AnswersLike G.schema L.current.text n m) :
    LooksLike (fun x y => x.2 = y.2 ∧ SameMode x.1 y.1) (walk G env L n)
      (walk (withNodes G ms) env' M m) := by
  have hmode : SameMode L.enter M.enter :=
    ⟨hLM.mode.config, hLM.mode.restrictedMode, hLM.mode.replayEvents, hLM.mode.hasBus⟩
  unfold walk
  rw [← hLM.current, ← hLM.state]
  refine Logged.alike_bind (looksLike_completeNode hnm L.state hmode hLM.loopCounters) ?_
  rintro ⟨s, c'⟩ ⟨_, d'⟩ _ _ ⟨rfl, hcd, hc⟩
  refine Logged.alike_bind (looksLike_resolveNext h henv henv' hcd hc _ _ s) ?_
  rintro r _ _ _ rfl
  exact Logged.alike_pure ⟨rfl, hcd⟩

theorem inStep_after {x y : Ctx × Resolution schema} (h : x.2 = y.2 ∧ SameMode x.1 y.1) :
    InStep (Loop.after x.1 x.2) (Loop.after y.1 y.2) := by
  obtain ⟨c', r⟩ := x
  obtain ⟨d', r'⟩ := y
  obtain ⟨rfl, hmode⟩ := h
  exact ⟨rfl, rfl, ⟨hmode.config, hmode.restrictedMode, hmode.replayEvents, hmode.hasBus⟩, rfl⟩

end

end orchestra.twins
