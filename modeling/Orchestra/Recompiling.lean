-- A builder that is compiled before its end (`graph.py`). `compile` adds the edge from the last node
-- to END to the builder's own edges, and the calls after it go on behind that edge.
import Orchestra.Builder

open dicts stateful orchestra.state orchestra.edges orchestra.nodes orchestra.compiled
open orchestra.graph orchestra.builder

namespace orchestra.recompiling

/-! ## Histories of a builder -/

/-- A call on a builder: a method that stores nodes, one of the explicit ones, or `compile`. -/
inductive Op
  | call (c : Call)
  | addEdge (source : String) (target : Target)
  | addConditionalEdge (source : String)
      (condition : PyDict → Counters → Except Raised (Routed × Counters))
      (pathMap : Option (Dict String Target))
  | addParallel (source : String) (targets : List String) (joinNode : Option Target)
  | addHandoff (edge : HandoffEdge)
  | setEntryPoint (nodeId : String)
  | compile

/-- The graph passes the check. -/
def valid (g : WorkflowGraph) : Bool :=
  match g.validate with
  | .ok () => true
  | .error _ => false

/-- The builder after `compile`: the edge to END is among its edges. A graph that does not pass the
check is left as it was. -/
def closed (g : WorkflowGraph) : WorkflowGraph :=
  if valid g then { g with edges := g.edges ++ g.closingEdge } else g

/-- The builder after a call, whether it fails or not. -/
def Op.apply (g : WorkflowGraph) : Op → WorkflowGraph
  | call c => final c.run g
  | addEdge source target => g.addEdge source target
  | addConditionalEdge source condition pathMap => g.addConditionalEdge source condition pathMap
  | addParallel source targets joinNode => g.addParallel source targets joinNode
  | addHandoff edge => { g with handoffEdges := g.handoffEdges ++ [edge] }
  | setEntryPoint nodeId => g.setEntryPoint nodeId
  | compile => closed g

/-- A call, or a `compile` in between whose result is not used. -/
inductive Event
  | op (o : Op)
  | compiled

/-- The builder without the additional compiles. -/
def without (g : WorkflowGraph) : List Event → WorkflowGraph
  | [] => g
  | .op o :: es => without (o.apply g) es
  | .compiled :: es => without g es

/-- The builder with them. -/
def withAll (g : WorkflowGraph) : List Event → WorkflowGraph
  | [] => g
  | .op o :: es => withAll (o.apply g) es
  | .compiled :: es => withAll (closed g) es

/-! ## The condition -/

/-- A `compile` of the builder would add an edge to it. -/
def addsEdge (g : WorkflowGraph) : Bool := valid g && !g.closingEdge.isEmpty

/-- The call compiles the builder itself: `compile`, or `subgraph` of the builder. -/
def Op.compiles : Op → Bool
  | compile | call (.subgraph _ _ (.ok .itself) ..) => true
  | _ => false

/-- It does so, and the check is passed. -/
def Op.closes (g : WorkflowGraph) (o : Op) : Bool := o.compiles && valid g

/-- The edges and the last node are those of before. -/
def Leaves (g h : WorkflowGraph) : Prop := h.edges = g.edges ∧ h.lastNode = g.lastNode

/-- From the time when an additional `compile` has added an edge (`early`), each call leaves the
edges and the last node, up to the end or to a call that compiles the builder itself. -/
def Harmless (g : WorkflowGraph) (early : Bool) : List Event → Prop
  | [] => True
  | .compiled :: es => Harmless g (early || addsEdge g) es
  | .op o :: es =>
    if o.closes g then Harmless (o.apply g) false es
    else (early = true → Leaves g (o.apply g)) ∧ Harmless (o.apply g) early es

/-! ## Edges to END -/

def isEnd : GraphEdge → Bool
  | .plain _ .END => true
  | _ => false

/-- The builder with more edges. -/
def ahead (T : List GraphEdge) (g : WorkflowGraph) : WorkflowGraph :=
  { g with edges := g.edges ++ T }

@[simp] theorem edges_ahead (T : List GraphEdge) (g : WorkflowGraph) :
    (ahead T g).edges = g.edges ++ T := rfl

@[simp] theorem nodes_ahead (T : List GraphEdge) (g : WorkflowGraph) :
    (ahead T g).nodes = g.nodes := rfl

@[simp] theorem lastNode_ahead (T : List GraphEdge) (g : WorkflowGraph) :
    (ahead T g).lastNode = g.lastNode := rfl

@[simp] theorem parallelNodes_ahead (T : List GraphEdge) (g : WorkflowGraph) :
    (ahead T g).parallelNodes = g.parallelNodes := rfl

@[simp] theorem ahead_nil (g : WorkflowGraph) : ahead [] g = g := by simp [ahead]

theorem ahead_ahead (T U : List GraphEdge) (g : WorkflowGraph) :
    ahead U (ahead T g) = ahead (T ++ U) g := by simp [ahead]

/-- Edges to END of nodes that are there. -/
def Endings (ids : List String) (T : List GraphEdge) : Prop :=
  ∀ e ∈ T, ∃ l ∈ ids, e = .plain l .END

theorem Endings.isEnd {ids : List String} {T : List GraphEdge} (h : Endings ids T) :
    ∀ e ∈ T, isEnd e = true := by
  intro e he
  obtain ⟨l, -, rfl⟩ := h e he
  rfl

theorem Endings.mono {ids more : List String} {T : List GraphEdge} (h : Endings ids T)
    (hmore : ∀ n ∈ ids, n ∈ more) : Endings more T := fun e he => by
  obtain ⟨l, hl, heq⟩ := h e he
  exact ⟨l, hmore l hl, heq⟩

theorem Endings.append {ids : List String} {T U : List GraphEdge} (h : Endings ids T)
    (hU : Endings ids U) : Endings ids (T ++ U) := fun e he =>
  (List.mem_append.mp he).elim (h e) (hU e)

theorem Endings.exists_cons {ids : List String} {T : List GraphEdge} (h : Endings ids T)
    (hne : T ≠ []) : ∃ l T', T = .plain l .END :: T' := by
  obtain ⟨t, T', rfl⟩ := List.exists_cons_of_ne_nil hne
  obtain ⟨l, -, rfl⟩ := h t List.mem_cons_self
  exact ⟨l, T', rfl⟩

theorem joinEdges_cons_of_ne (targets : List Target) (joinNode : Target) {e : GraphEdge}
    (he : ∀ p, e ≠ .parallel p) (es : List GraphEdge) :
    WorkflowGraph.joinEdges targets joinNode (e :: es) =
      e :: WorkflowGraph.joinEdges targets joinNode es := by
  rw [WorkflowGraph.joinEdges]
  exact he

/-- The group that is joined is among the edges before those to END. -/
theorem joinEdges_append (targets : List Target) (joinNode : Target) (es : List GraphEdge)
    {T : List GraphEdge} (hT : ∀ e ∈ T, isEnd e = true) :
    WorkflowGraph.joinEdges targets joinNode (es ++ T) =
      WorkflowGraph.joinEdges targets joinNode es ++ T := by
  have hnone : ∀ U : List GraphEdge, (∀ e ∈ U, isEnd e = true) →
      WorkflowGraph.joinEdges targets joinNode U = U := by
    intro U hU
    induction U with
    | nil => rfl
    | cons e U ih =>
      obtain ⟨he, hrest⟩ := List.forall_mem_cons.mp hU
      rw [joinEdges_cons_of_ne _ _ _, ih hrest]
      rintro p rfl
      cases he
  induction es with
  | nil => exact hnone T hT
  | cons e es ih =>
    by_cases hparallel : ∃ p, e = .parallel p
    · obtain ⟨p, rfl⟩ := hparallel
      rw [List.cons_append, WorkflowGraph.joinEdges, WorkflowGraph.joinEdges, ih]
      split <;> rfl
    · have hother : ∀ p, e ≠ .parallel p := fun p hp => hparallel ⟨p, hp⟩
      rw [List.cons_append, joinEdges_cons_of_ne _ _ hother, joinEdges_cons_of_ne _ _ hother, ih]
      rfl

/-- What stood at a place stands there still, but for a parallel edge that is joined. -/
def Stays (es fs : List GraphEdge) : Prop :=
  ∀ (i : Nat) e, es[i]? = some e → fs[i]? = some e ∨
    ∃ p q, e = .parallel p ∧ fs[i]? = some (.parallel q)

theorem Stays.refl (es : List GraphEdge) : Stays es es := fun _ _ he => .inl he

theorem Stays.append (es X : List GraphEdge) : Stays es (es ++ X) := by
  intro i e he
  refine .inl ?_
  obtain ⟨hi, -⟩ := List.getElem?_eq_some_iff.mp he
  rw [List.getElem?_append_left hi, he]

theorem Stays.trans {es fs gs : List GraphEdge} (h₁ : Stays es fs) (h₂ : Stays fs gs) :
    Stays es gs := by
  intro i e he
  rcases h₁ i e he with hf | ⟨p, q, rfl, hf⟩
  · exact h₂ i e hf
  · rcases h₂ i _ hf with hg | ⟨_, r, -, hg⟩
    · exact .inr ⟨p, q, rfl, hg⟩
    · exact .inr ⟨p, r, rfl, hg⟩

theorem stays_joinEdges (targets : List Target) (joinNode : Target) (es : List GraphEdge) :
    Stays es (WorkflowGraph.joinEdges targets joinNode es) := by
  induction es with
  | nil => exact .refl []
  | cons e es ih =>
    have hsame : Stays (e :: es) (e :: WorkflowGraph.joinEdges targets joinNode es) := by
      intro i f hf
      cases i with
      | zero => exact .inl hf
      | succ i => exact ih i f hf
    by_cases hparallel : ∃ p, e = .parallel p
    · obtain ⟨p, rfl⟩ := hparallel
      rw [WorkflowGraph.joinEdges]
      split
      · intro i f hf
        cases i with
        | zero =>
          cases hf
          exact .inr ⟨p, ⟨p.source, p.targets, some joinNode⟩, rfl, rfl⟩
        | succ i => exact .inl hf
      · exact hsame
    · rw [joinEdges_cons_of_ne _ _ fun p hp => hparallel ⟨p, hp⟩]
      exact hsame

/-! ## What a call does to the edges -/

/-- The graph has more nodes, and the rest as before. -/
structure Grown (g h : WorkflowGraph) : Prop where
  keys : ∀ n ∈ g.nodes.keys, n ∈ h.nodes.keys
  edges : h.edges = g.edges
  lastNode : h.lastNode = g.lastNode
  parallelNodes : h.parallelNodes = g.parallelNodes

theorem Grown.refl (g : WorkflowGraph) : Grown g g := ⟨fun _ h => h, rfl, rfl, rfl⟩

theorem Grown.trans {g h k : WorkflowGraph} (h₁ : Grown g h) (h₂ : Grown h k) : Grown g k :=
  ⟨fun n hn => h₂.keys n (h₁.keys n hn), h₂.edges.trans h₁.edges, h₂.lastNode.trans h₁.lastNode,
    h₂.parallelNodes.trans h₁.parallelNodes⟩

variable {g h k : WorkflowGraph} {T : List GraphEdge}

/-- With `T` behind the edges a method does the same, and stores nodes only. -/
def Stores {α : Type} (x : Build α) (T : List GraphEdge) (Q : α → WorkflowGraph → Prop)
    (g : WorkflowGraph) : Prop :=
  LeadBoth x x (fun a b h k => a = b ∧ k = ahead T h ∧ Grown g h ∧ Q a h)
    (fun h k => k = ahead T h ∧ Grown g h) g (ahead T g)

theorem stores_lift {α : Type} (x : Except Failure α) :
    Stores (lift x) T (fun a _ => x = .ok a) g := by
  cases x with
  | ok a => exact ⟨rfl, rfl, .refl g, rfl⟩
  | error e => exact ⟨rfl, .refl g⟩

theorem Stores.mono {α : Type} {x : Build α} {Q Q' : α → WorkflowGraph → Prop}
    (hx : Stores x T Q g) (hQ : ∀ a h, Q a h → Q' a h) : Stores x T Q' g := by
  unfold Stores at *
  refine hx.mono ?_ fun _ _ h => h
  rintro a b h k ⟨hab, hk, hgrown, hq⟩
  exact ⟨hab, hk, hgrown, hQ a h hq⟩

theorem Stores.bind {α β : Type} {x : Build α} {f : α → Build β} {Q : α → WorkflowGraph → Prop}
    {Q' : β → WorkflowGraph → Prop} (hx : Stores x T Q g)
    (hf : ∀ a h, Grown g h → Q a h → Stores (f a) T Q' h) : Stores (x >>= f) T Q' g := by
  unfold Stores at *
  refine LeadBoth.bind (hx.mono ?_ fun _ _ h => h)
  rintro a b h k ⟨rfl, rfl, hgrown, hq⟩
  refine (hf a h hgrown hq).mono ?_ ?_
  · rintro c d h' k' ⟨hcd, hk, hgrown', hq'⟩
    exact ⟨hcd, hk, hgrown.trans hgrown', hq'⟩
  · rintro h' k' ⟨hk, hgrown'⟩
    exact ⟨hk, hgrown.trans hgrown'⟩

theorem grown_withNode {nodeId : String} {node : GraphNode} (hmem : nodeId ∉ g.nodes.keys) :
    Grown g (g.withNode nodeId node) := by
  refine ⟨fun n hn => ?_, rfl, rfl, rfl⟩
  rw [keys_withNode node hmem]
  exact List.mem_append_left _ hn

theorem stores_addNode (nodeId : String) (item : Item) (outputKey : Option String)
    (before after : Bool) : Stores (addNode nodeId item outputKey before after) T
      (fun _ h => nodeId ∉ g.nodes.keys ∧ nodeId ∈ h.nodes.keys) g := by
  unfold Stores addNode
  refine LeadBoth.bind ?_
  rw [leadBoth_get, nodes_ahead]
  split
  · exact ⟨rfl, .refl g⟩
  split
  · exact ⟨rfl, .refl g⟩
  · rename_i hmem
    refine LeadBoth.bind (LeadBoth.mono (stores_lift (item.wrapAsNode nodeId before after)) ?_ ?_)
    · rintro wrapped _ _ _ ⟨rfl, rfl, -, -⟩
      refine ⟨rfl, rfl, grown_withNode hmem, hmem, ?_⟩
      rw [keys_withNode _ hmem]
      exact List.mem_append_right _ List.mem_cons_self
    · exact fun _ _ h => h

/-- What reads the ids of the graph does the same with more edges. -/
theorem Stores.get {α : Type} {f : WorkflowGraph → Build α} {Q : α → WorkflowGraph → Prop}
    (hf : LeadBoth (f g) (f (ahead T g)) (fun a b h k => a = b ∧ k = ahead T h ∧ Grown g h ∧ Q a h)
      (fun h k => k = ahead T h ∧ Grown g h) g (ahead T g)) : Stores (get >>= f) T Q g :=
  LeadBoth.bind hf

theorem stores_addItems (names : Option (List String)) (i : Nat) (items : List Item) :
    Stores (addItems names i items) T (fun _ _ => True) g := by
  induction items generalizing i g with
  | nil => exact ⟨rfl, rfl, .refl g, trivial⟩
  | cons item items ih =>
    refine (stores_lift (itemName names i item)).bind fun name h _ _ => ?_
    refine Stores.get ?_
    rw [nodes_ahead]
    refine (stores_addNode _ item none false false).bind fun _ h₁ _ _ => ?_
    refine (ih (i + 1)).bind fun later h₂ _ _ => ?_
    exact ⟨rfl, rfl, .refl h₂, trivial⟩

theorem stores_addUnlessTaken (nodeId : String) (item : Item) :
    Stores (addUnlessTaken nodeId item) T (fun _ h => nodeId ∈ h.nodes.keys) g := by
  refine Stores.get ?_
  rw [nodes_ahead]
  split
  · rename_i hmem
    exact ⟨rfl, rfl, .refl g, hmem⟩
  · exact (stores_addNode nodeId item none false false).mono fun _ _ h => h.2

theorem stores_addTarget (item : Item) :
    Stores (addTarget item) T (fun _ _ => True) g := by
  refine (stores_lift item.nodeName).bind fun nodeId h _ _ => ?_
  refine (stores_addUnlessTaken nodeId item).bind fun _ h₁ _ _ => ?_
  exact ⟨rfl, rfl, .refl h₁, trivial⟩

theorem stores_resolveTargets (targets : List (String × PathTarget)) :
    Stores (resolveTargets targets) T (fun _ _ => True) g := by
  induction targets generalizing g with
  | nil => exact ⟨rfl, rfl, .refl g, trivial⟩
  | cons target targets ih =>
    obtain ⟨key, target⟩ := target
    cases target with
    | END =>
      refine ih.bind fun later h _ _ => ?_
      exact ⟨rfl, rfl, .refl h, trivial⟩
    | id nodeId =>
      refine ih.bind fun later h _ _ => ?_
      exact ⟨rfl, rfl, .refl h, trivial⟩
    | item item =>
      refine (stores_addTarget item).bind fun nodeId h _ _ => ?_
      refine ih.bind fun later h₁ _ _ => ?_
      exact ⟨rfl, rfl, .refl h₁, trivial⟩

/-! ## The four ways to change a builder -/

/-- Where the calls of one method lead from `g` and from `g` with `T` behind its edges. -/
inductive Change (g : WorkflowGraph) (T : List GraphEdge) : WorkflowGraph → WorkflowGraph → Prop
  /-- Edges and last node are left. -/
  | leaves {h : WorkflowGraph} (same : Leaves g h) : Change g T h (ahead T h)
  /-- A new node is the last one, without an edge to it. -/
  | starts {h : WorkflowGraph} {j : String} (stays : Stays g.edges h.edges)
      (last : h.lastNode = some j) (fresh : j ∉ g.nodes.keys) (mem : j ∈ h.nodes.keys) :
      Change g T h (ahead T h)
  /-- An edge to END is added. -/
  | ends {h k : WorkflowGraph} {l : String} (edges : h.edges = g.edges ++ [.plain l .END])
      (last : h.lastNode = g.lastNode)
      (same : k = { h with edges := g.edges ++ T ++ [.plain l .END] }) : Change g T h k
  /-- Edges are added, and the first of them is another one. -/
  | adds {h k : WorkflowGraph} {e : GraphEdge} {X : List GraphEdge} (other : isEnd e = false)
      (edges : h.edges = g.edges ++ e :: X) (more : k.edges = g.edges ++ T ++ e :: X) :
      Change g T h k

/-- The nodes stay, the last node is one of them. -/
structure Effect (g : WorkflowGraph) (T : List GraphEdge) (h k : WorkflowGraph) : Prop where
  keys : ∀ n ∈ g.nodes.keys, n ∈ h.nodes.keys
  last : ∀ l, h.lastNode = some l → g.lastNode = some l ∨ l ∈ h.nodes.keys
  change : Change g T h k

theorem effect_of_grown (h' : Grown g h) : Effect g T h (ahead T h) :=
  ⟨h'.keys, fun _ hl => .inl (h'.lastNode ▸ hl), .leaves ⟨h'.edges, h'.lastNode⟩⟩

theorem Effect.of_grown {h' k' : WorkflowGraph} (hgrown : Grown g h) (he : Effect h T h' k') :
    Effect g T h' k' := by
  refine ⟨fun n hn => he.keys n (hgrown.keys n hn), fun l hl => ?_, ?_⟩
  · rw [← hgrown.lastNode]
    exact he.last l hl
  · cases he.change with
    | leaves same =>
      exact .leaves ⟨same.1.trans hgrown.edges, same.2.trans hgrown.lastNode⟩
    | starts stays last fresh mem =>
      rw [hgrown.edges] at stays
      exact .starts stays last (fun hmem => fresh (hgrown.keys _ hmem)) mem
    | ends edges last same =>
      rw [hgrown.edges] at edges same
      exact .ends edges (last.trans hgrown.lastNode) same
    | adds other edges more =>
      rw [hgrown.edges] at edges more
      exact .adds other edges more

/-- Behind a part that stores nodes only. -/
theorem effect_later {α : Type} {x : Build α} (hgrown : Grown g h)
    (hx : LeadBoth x x (fun _ _ => Effect h T) (Effect h T) h (ahead T h)) :
    LeadBoth x x (fun _ _ => Effect g T) (Effect g T) h (ahead T h) :=
  hx.mono (fun _ _ _ _ he => he.of_grown hgrown) fun _ _ he => he.of_grown hgrown

/-- Where the nodes of a call are stored, its end decides. -/
theorem effect_bind {α : Type} {x : Build α} {f : α → Build Unit} {Q : α → WorkflowGraph → Prop}
    (hx : Stores x T Q g) (hf : ∀ a h, Grown g h → Q a h →
      LeadBoth (f a) (f a) (fun _ _ => Effect g T) (Effect g T) h (ahead T h)) :
    LeadBoth (x >>= f) (x >>= f) (fun _ _ => Effect g T) (Effect g T) g (ahead T g) := by
  refine LeadBoth.bind (LeadBoth.mono hx ?_ ?_)
  · rintro a b h k ⟨rfl, rfl, hgrown, hq⟩
    exact hf a h hgrown hq
  · rintro h k ⟨rfl, hgrown⟩
    exact effect_of_grown hgrown

/-- Where edges are added after the nodes of a call. -/
theorem effect_adds {h' k' : WorkflowGraph} {e : GraphEdge} {X : List GraphEdge}
    (hgrown : Grown g h) (other : isEnd e = false) (edges : h'.edges = h.edges ++ e :: X)
    (more : k'.edges = (ahead T h).edges ++ e :: X) (nodes : h'.nodes = h.nodes)
    (last : ∀ l, h'.lastNode = some l → l ∈ h.nodes.keys) : Effect g T h' k' := by
  refine ⟨fun n hn => nodes ▸ hgrown.keys n hn, fun l hl => .inr (nodes ▸ last l hl), ?_⟩
  rw [edges_ahead, hgrown.edges] at more
  rw [hgrown.edges] at edges
  exact .adds other edges more

/-- A new node becomes the last one. -/
theorem effect_starts {nodeId : String} (hgrown : Grown g h) (fresh : nodeId ∉ g.nodes.keys)
    (mem : nodeId ∈ h.nodes.keys) {h' : WorkflowGraph} (stays : Stays g.edges h'.edges)
    (nodes : h'.nodes = h.nodes) (last : h'.lastNode = some nodeId) :
    Effect g T h' (ahead T h') := by
  refine ⟨fun n hn => nodes ▸ hgrown.keys n hn, fun l hl => .inr ?_,
    .starts stays last fresh (nodes ▸ mem)⟩
  cases last.symm.trans hl
  exact nodes ▸ mem

theorem effect_follow {nodeId : String} (hgrown : Grown g h) (fresh : nodeId ∉ g.nodes.keys)
    (mem : nodeId ∈ h.nodes.keys) : Effect g T (follow nodeId h) (follow nodeId (ahead T h)) := by
  cases hlast : h.lastNode with
  | some last =>
    refine effect_adds (e := .plain last (.node nodeId)) (X := []) hgrown rfl ?_ ?_ ?_ ?_
    · simp [follow, hlast, WorkflowGraph.addEdge]
    · simp [follow, hlast, WorkflowGraph.addEdge]
    · simp [follow, hlast, WorkflowGraph.addEdge]
    · intro l hl
      cases hl
      exact mem
  | none =>
    have hsame : follow nodeId (ahead T h) = ahead T (follow nodeId h) := by
      simp [follow, hlast, ahead]
    have hkept : follow nodeId h = { h with lastNode := some nodeId } := by
      simp [follow, hlast]
    rw [hsame, hkept]
    refine effect_starts hgrown fresh mem ?_ rfl rfl
    change Stays g.edges h.edges
    rw [hgrown.edges]
    intro i e he
    exact .inl he

theorem effect_fork {condition : PyDict → Counters → Except Raised (Routed × Counters)}
    {paths : List (String × Target)} (hgrown : Grown g h) :
    Effect g T (fork condition paths h) (fork condition paths (ahead T h)) := by
  cases hlast : h.lastNode with
  | some last =>
    refine effect_adds (e := .conditional ⟨last, condition, some (.ofList paths)⟩) (X := [])
      hgrown rfl ?_ ?_ ?_ ?_
    · simp [fork, hlast, WorkflowGraph.addConditionalEdge]
    · simp [fork, hlast, WorkflowGraph.addConditionalEdge]
    · simp [fork, hlast, WorkflowGraph.addConditionalEdge]
    · intro l hl
      cases hl
  | none =>
    have hleft : ∀ x : WorkflowGraph, x.lastNode = none → fork condition paths x = x := by
      intro x hx
      cases x
      cases hx
      rfl
    rw [hleft h hlast, hleft (ahead T h) hlast]
    exact effect_of_grown hgrown

theorem effect_loopBack {nodeId : String} {condition : PyDict → Except Raised Bool}
    {maxIterations : Int} (hgrown : Grown g h) (mem : nodeId ∈ h.nodes.keys) :
    Effect g T (loopBack nodeId condition maxIterations h)
      (loopBack nodeId condition maxIterations (ahead T h)) := by
  have hlast : ∀ l, (loopBack nodeId condition maxIterations h).lastNode = some l →
      l ∈ h.nodes.keys := by
    intro l hl
    cases hl
    exact mem
  let back : GraphEdge :=
    .conditional ⟨nodeId, WorkflowGraph.loopCondition nodeId condition maxIterations, none⟩
  by_cases hedge : ∃ last, h.lastNode = some last ∧ last ≠ nodeId
  · obtain ⟨last, hsome, hne⟩ := hedge
    refine effect_adds (e := .plain last (.node nodeId)) (X := [back]) hgrown rfl ?_ ?_ ?_ hlast
    · simp [loopBack, hsome, hne, WorkflowGraph.addEdge, WorkflowGraph.addConditionalEdge, back]
    · simp [loopBack, hsome, hne, WorkflowGraph.addEdge, WorkflowGraph.addConditionalEdge, back]
    · simp [loopBack, hsome, hne, WorkflowGraph.addEdge, WorkflowGraph.addConditionalEdge]
  · have hno : ∀ x : WorkflowGraph, x.lastNode = h.lastNode →
        loopBack nodeId condition maxIterations x =
          { x with edges := x.edges ++ [back], lastNode := some nodeId } := by
      intro x hx
      unfold loopBack
      rw [hx]
      cases hsome : h.lastNode with
      | none => rfl
      | some last =>
        have heq : last = nodeId := not_not.mp fun hne => hedge ⟨last, hsome, hne⟩
        rw [heq]
        simp [WorkflowGraph.addConditionalEdge, back]
    refine effect_adds (e := back) (X := []) hgrown rfl ?_ ?_ ?_ hlast
    · rw [hno h rfl]
    · rw [hno (ahead T h) rfl]
    · rw [hno h rfl]

/-! ## Each call has one of these effects -/

theorem effect_parallel (items : List Item) (names : Option (List String)) :
    LeadBoth (parallel items names) (parallel items names) (fun _ _ => Effect g T) (Effect g T)
      g (ahead T g) := by
  refine effect_bind (stores_addItems names 0 items) fun nodeNames h hgrown _ => ?_
  refine LeadBoth.bind ?_
  rw [leadBoth_get, parallelNodes_ahead]
  cases h.parallelNodes with
  | some group => exact effect_of_grown hgrown
  | none =>
    change Effect g T _ _
    cases hlast : h.lastNode with
    | some last =>
      refine effect_adds (e := .parallel ⟨last, nodeNames.map .node, none⟩) (X := []) hgrown rfl
        rfl ?_ rfl nofun
      simp [hlast]
    | none =>
      rw [lastNode_ahead, hlast]
      refine ⟨hgrown.keys, nofun, .leaves ⟨hgrown.edges, ?_⟩⟩
      rw [← hgrown.lastNode, hlast]

theorem effect_join (item : Item) (name : Option String) (hT : Endings g.nodes.keys T) :
    LeadBoth (join item name) (join item name) (fun _ _ => Effect g T) (Effect g T)
      g (ahead T g) := by
  refine LeadBoth.bind ?_
  rw [leadBoth_get, parallelNodes_ahead]
  cases g.parallelNodes with
  | none => exact effect_of_grown (.refl g)
  | some names =>
    refine effect_bind (stores_lift (nameOr name item)) fun nodeId h hgrown _ => ?_
    refine effect_later hgrown ?_
    refine effect_bind (stores_addNode nodeId item none false false) fun _ h' hgrown' hnew => ?_
    let joined (x : WorkflowGraph) : WorkflowGraph := { x with
      edges := WorkflowGraph.joinEdges (names.map .node) (.node nodeId) x.edges
      parallelNodes := none
      lastNode := some nodeId }
    have hsame : joined (ahead T h') = ahead T (joined h') := by
      simp only [joined, edges_ahead, joinEdges_append _ _ _ hT.isEnd]
      rfl
    change Effect h T (joined h') (joined (ahead T h'))
    rw [hsame]
    refine effect_starts hgrown' hnew.1 hnew.2 ?_ rfl rfl
    rw [← hgrown'.edges]
    exact stays_joinEdges _ _ _

/-- Edges to END of nodes stay behind the edges, whatever the call does. -/
theorem effect_call (c : Call) (hopen : (Op.call c).compiles = false)
    (hT : Endings g.nodes.keys T) :
    Effect g T (final c.run g) (final c.run (ahead T g)) := by
  refine final_both ?_
  cases c with
  | addNode nodeId item outputKey before after =>
    refine LeadBoth.mono (stores_addNode nodeId item outputKey before after) ?_ ?_
    · rintro _ _ h _ ⟨-, rfl, hgrown, -⟩
      exact effect_of_grown hgrown
    · rintro h _ ⟨rfl, hgrown⟩
      exact effect_of_grown hgrown
  | thenNode item name before after =>
    refine effect_bind (stores_lift (nameOr name item)) fun nodeId h hgrown _ => ?_
    refine effect_later hgrown ?_
    refine effect_bind (stores_addNode nodeId item none before after) fun _ h' hgrown' hnew => ?_
    exact effect_follow hgrown' hnew.1 hnew.2
  | subgraph runs name nested inputMapper outputMapper before after =>
    refine effect_bind (stores_lift nested) fun inner h hgrown hinner => ?_
    refine effect_later hgrown ?_
    have hnest : Stores (nest runs inner) T (fun _ _ => True) h := by
      cases inner with
      | compiled run => exact ⟨rfl, rfl, .refl h, trivial⟩
      | other compile => exact (stores_lift _).mono fun _ _ _ => trivial
      | itself =>
        subst hinner
        cases hopen
    refine effect_bind hnest fun run h' hgrown' _ => ?_
    refine effect_later hgrown' ?_
    refine effect_bind (stores_addNode name _ none false false) fun _ k hgrown hnew => ?_
    exact effect_follow hgrown hnew.1 hnew.2
  | parallel items names => exact effect_parallel items names
  | join item name => exact effect_join item name hT
  | branch condition pathMap =>
    refine LeadBoth.bind ?_
    rw [leadBoth_get, lastNode_ahead]
    cases g.lastNode with
    | none => exact effect_of_grown (.refl g)
    | some last =>
      refine effect_bind (stores_resolveTargets pathMap.entries) fun paths h hgrown _ => ?_
      exact effect_fork hgrown
  | ifThen condition thenAgent elseAgent =>
    refine effect_bind (stores_addTarget thenAgent) fun thenId h hgrown _ => ?_
    cases elseAgent with
    | none => exact effect_fork hgrown
    | some elseAgent =>
      refine effect_later hgrown ?_
      refine effect_bind (stores_addTarget elseAgent) fun elseId h' hgrown' _ => ?_
      exact effect_fork hgrown'
  | loop item condition maxIterations name =>
    refine effect_bind (stores_lift (nameOr name item)) fun nodeId h hgrown _ => ?_
    refine effect_later hgrown ?_
    refine effect_bind (stores_addUnlessTaken nodeId item) fun _ h' hgrown' hmem => ?_
    exact effect_loopBack hgrown' hmem

theorem effect_op (o : Op) (hopen : o.compiles = false) (hT : Endings g.nodes.keys T) :
    Effect g T (o.apply g) (o.apply (ahead T g)) := by
  cases o with
  | call c => exact effect_call c hopen hT
  | addEdge source target =>
    cases target with
    | END => exact ⟨fun _ hn => hn, fun _ hl => .inl hl, .ends rfl rfl rfl⟩
    | node nodeId => exact ⟨fun _ hn => hn, fun _ hl => .inl hl, .adds rfl rfl rfl⟩
  | addConditionalEdge source condition pathMap =>
    exact ⟨fun _ hn => hn, fun _ hl => .inl hl, .adds rfl rfl rfl⟩
  | addParallel source targets joinNode =>
    exact ⟨fun _ hn => hn, fun _ hl => .inl hl, .adds rfl rfl rfl⟩
  | addHandoff edge => exact ⟨fun _ hn => hn, fun _ hl => .inl hl, .leaves ⟨rfl, rfl⟩⟩
  | setEntryPoint nodeId => exact ⟨fun _ hn => hn, fun _ hl => .inl hl, .leaves ⟨rfl, rfl⟩⟩
  | compile => cases hopen

/-! ## The check and the edge to END -/

theorem validateEdges_append (nodes : List String) (es : List GraphEdge) (hT : Endings nodes T) :
    validateEdges nodes (es ++ T) = validateEdges nodes es := by
  induction es with
  | nil =>
    induction T with
    | nil => rfl
    | cons e T ih =>
      obtain ⟨⟨l, hl, rfl⟩, hrest⟩ := List.forall_mem_cons.mp hT
      have he : validateEdge nodes (.plain l .END) = .ok () := if_pos hl
      rw [List.nil_append] at ih ⊢
      simp only [validateEdges, he]
      exact ih hrest
  | cons e es ih =>
    rw [List.cons_append, validateEdges, validateEdges, ih]

theorem validate_ahead (hT : Endings g.nodes.keys T) : (ahead T g).validate = g.validate := by
  unfold WorkflowGraph.validate
  rw [nodes_ahead, edges_ahead, validateEdges_append _ _ hT]
  rfl

theorem valid_ahead (hT : Endings g.nodes.keys T) : valid (ahead T g) = valid g := by
  unfold valid
  rw [validate_ahead hT]

/-- The last node is one of the nodes. -/
def Placed (g : WorkflowGraph) : Prop := ∀ l, g.lastNode = some l → l ∈ g.nodes.keys

theorem endings_closingEdge (hp : Placed g) : Endings g.nodes.keys g.closingEdge := by
  rcases closingEdge_eq g with hnil | ⟨l, hsome, hedge, -⟩
  · rw [hnil]
    exact nofun
  · rw [hedge]
    intro e he
    rw [List.mem_singleton] at he
    exact ⟨l, hp l hsome, he⟩

theorem closingEdge_ahead_self (g : WorkflowGraph) :
    (ahead g.closingEdge g).closingEdge = [] := by
  rcases closingEdge_eq g with hnil | ⟨l, hsome, hedge, -⟩
  · rw [hnil, ahead_nil, hnil]
  · refine closingEdge_of_mem (e := .plain l .END) ?_ ?_
    · rw [edges_ahead, hedge]
      exact List.mem_append_right _ List.mem_cons_self
    · intro l' hl'
      cases hsome.symm.trans hl'
      rfl

theorem closed_of_valid (hv : valid g = true) : closed g = ahead g.closingEdge g := by
  unfold closed
  rw [if_pos hv]
  rfl

theorem closed_of_invalid (hv : valid g = false) : closed g = g := by
  unfold closed
  rw [hv]
  rfl

/-- A builder that is compiled a second time gets no other edge. -/
theorem closed_ahead_self (hp : Placed g) (hv : valid g = true) :
    closed (ahead g.closingEdge g) = closed g := by
  have hv' : valid (ahead g.closingEdge g) = true := by
    rw [valid_ahead (endings_closingEdge hp), hv]
  rw [closed_of_valid hv', closed_of_valid hv, closingEdge_ahead_self, ahead_nil]

theorem compile_ahead_self (hp : Placed g) (n : Nat) :
    (ahead g.closingEdge g).compile n = g.compile n := by
  unfold WorkflowGraph.compile
  rw [validate_ahead (endings_closingEdge hp), closingEdge_ahead_self, List.append_nil]
  rfl

/-! ## Calls that compile the builder itself -/

/-- The end of `subgraph`. -/
def enclose (name : String) (node : GraphNode) : Build Unit := do
  addNode name ⟨.node node, none, none, 0⟩ none false false
  modify (follow name)

theorem final_enclose (name : String) (node : GraphNode) (g : WorkflowGraph) :
    final (enclose name node) g =
      if name = START ∨ name ∈ g.nodes.keys then g
      else follow name (g.withNode name
        (withOutputKey none (graph.wrapAsNode false false node))) := by
  refine final_of_leads (P := fun h => h = ite _ _ _) ?_
  unfold enclose addNode
  rw [leads_bind, leads_bind, leads_get]
  by_cases hstart : name = START
  · rw [if_pos hstart, if_pos (.inl hstart)]
    exact rfl
  rw [if_neg hstart]
  by_cases hmem : name ∈ g.nodes.keys
  · rw [if_pos hmem, if_pos (.inr hmem)]
    exact rfl
  · rw [if_neg hmem, if_neg (not_or.mpr ⟨hstart, hmem⟩)]
    exact rfl

/-- What a call that compiles the builder does behind that, with the compiled graph. -/
def Op.rest (G : CompiledGraph) (g : WorkflowGraph) : Op → WorkflowGraph
  | call (.subgraph runs name (.ok .itself) inputMapper outputMapper before after) =>
    final (enclose name (.subgraph ⟨runs G, inputMapper, outputMapper, before, after⟩)) g
  | _ => g

/-- It stores a node behind the last one, or does nothing. The ids decide which. -/
theorem rest_cases (o : Op) : ∃ (name : String) (taken : List String → Prop), ∀ G g,
    (taken g.nodes.keys → o.rest G g = g) ∧
    (¬ taken g.nodes.keys → name ∉ g.nodes.keys ∧
      ∃ stored, o.rest G g = follow name (g.withNode name stored)) := by
  by_cases hcall : ∃ runs name inputMapper outputMapper before after,
      o = .call (.subgraph runs name (.ok .itself) inputMapper outputMapper before after)
  · obtain ⟨runs, name, inputMapper, outputMapper, before, after, rfl⟩ := hcall
    refine ⟨name, fun ids => name = START ∨ name ∈ ids, fun G g => ⟨fun htaken => ?_,
      fun hfree => ?_⟩⟩
    · rw [Op.rest, final_enclose, if_pos htaken]
    · refine ⟨fun hmem => hfree (.inr hmem), ?_⟩
      rw [Op.rest, final_enclose, if_neg hfree]
      exact ⟨_, rfl⟩
  · refine ⟨"", fun _ => True, fun G g => ⟨fun _ => ?_, fun hfree => (hfree trivial).elim⟩⟩
    unfold Op.rest
    split
    · exact (hcall ⟨_, _, _, _, _, _, rfl⟩).elim
    · rfl

theorem compile_of_valid (hv : valid g = true) (n : Nat) : ∃ G, g.compile n = .ok G := by
  unfold valid at hv
  unfold WorkflowGraph.compile
  cases hvalidate : g.validate with
  | ok u => exact ⟨_, rfl⟩
  | error e => simp [hvalidate] at hv

theorem compile_of_invalid (hv : valid g = false) (n : Nat) : ∃ e, g.compile n = .error e := by
  unfold valid at hv
  unfold WorkflowGraph.compile
  cases hvalidate : g.validate with
  | ok u => simp [hvalidate] at hv
  | error e => exact ⟨e, rfl⟩

theorem apply_of_invalid {o : Op} (hc : o.compiles = true) (hv : valid g = false) :
    o.apply g = g := by
  unfold Op.compiles at hc
  split at hc
  · exact closed_of_invalid hv
  · obtain ⟨e, he⟩ := compile_of_invalid hv 50
    refine final_of_leads (P := fun h => h = g) ?_
    rw [Call.run, subgraph, leads_bind]
    change Leads (nest _ .itself >>= _) _ _ g
    rw [leads_bind, nest, leads_bind, leads_get, he]
    exact rfl
  · cases hc

theorem apply_of_valid {o : Op} {G : CompiledGraph} (hc : o.compiles = true)
    (hv : valid g = true) (hG : g.compile 50 = .ok G) : o.apply g = o.rest G (closed g) := by
  unfold Op.compiles at hc
  split at hc
  · rfl
  · rename_i runs name inputMapper outputMapper before after
    rw [closed_of_valid hv]
    have hnest : nest runs .itself g = .ok (runs G) (ahead g.closingEdge g) := by
      change EStateM.bind (lift ((g.compile 50).mapError .compile)) _ g = _
      rw [hG]
      rfl
    have hrun : subgraph runs name (.ok .itself) inputMapper outputMapper before after g =
        enclose name (.subgraph ⟨runs G, inputMapper, outputMapper, before, after⟩)
          (ahead g.closingEdge g) := by
      change EStateM.bind (nest runs .itself) _ g = _
      rw [EStateM.bind, hnest]
      rfl
    change final (subgraph _ _ _ _ _ _ _) g = final (enclose _ _) _
    unfold final
    rw [hrun]
  · cases hc

/-! ## Builders that have come apart -/

/-- An edge to END stands where the other builder has another edge. -/
def Apart (es fs : List GraphEdge) : Prop :=
  ∃ (i : Nat) (l : String) (e : GraphEdge), es[i]? = some (.plain l .END) ∧ fs[i]? = some e ∧
    e ≠ .plain l .END

theorem Apart.stays {es es' fs fs' : List GraphEdge} (h : Apart es fs) (hes : Stays es es')
    (hfs : Stays fs fs') : Apart es' fs' := by
  obtain ⟨i, l, e, he, hf, hne⟩ := h
  have he' : es'[i]? = some (.plain l .END) := by
    rcases hes i _ he with he' | ⟨p, q, heq, -⟩
    · exact he'
    · cases heq
  rcases hfs i _ hf with hf' | ⟨p, q, -, hf'⟩
  · exact ⟨i, l, e, he', hf', hne⟩
  · exact ⟨i, l, .parallel q, he', hf', nofun⟩

theorem Apart.ne {es fs : List GraphEdge} (h : Apart es fs) : es ≠ fs := by
  rintro rfl
  obtain ⟨i, l, e, he, hf, hne⟩ := h
  rw [he] at hf
  exact hne (Option.some.inj hf).symm

theorem apart_of_ne {l : String} {e : GraphEdge} (hne : e ≠ .plain l .END)
    (es X Y : List GraphEdge) : Apart (es ++ .plain l .END :: X) (es ++ e :: Y) :=
  ⟨es.length, l, e, by simp, by simp, hne⟩

/-- The builder with the additional compiles has other edges than the one without, or more of
them. -/
inductive Stray : WorkflowGraph → WorkflowGraph → Prop
  | apart {d g : WorkflowGraph} (h : Apart d.edges g.edges) : Stray d g
  | more {g : WorkflowGraph} {T : List GraphEdge} {l : String} (last : g.lastNode = some l)
      (ends : Endings g.nodes.keys T) (ne : T ≠ []) (other : T ≠ g.closingEdge) :
      Stray (ahead T g) g

theorem Change.stays (hc : Change g T h k) : Stays g.edges h.edges := by
  cases hc with
  | leaves same =>
    rw [same.1]
    exact .refl _
  | starts stays => exact stays
  | ends edges =>
    rw [edges]
    exact .append _ _
  | adds _ edges =>
    rw [edges]
    exact .append _ _

/-- An edge that is there is no edge that `compile` adds. -/
theorem append_ne_closingEdge {n : String} (hmem : .plain n .END ∈ g.edges)
    (X : List GraphEdge) : X ++ [.plain n .END] ≠ g.closingEdge := by
  intro heq
  rcases closingEdge_eq g with hnil | ⟨l, -, hedge, hnone⟩
  · rw [hnil] at heq
    simp at heq
  · have hsame : GraphEdge.plain n .END ∈ [GraphEdge.plain l .END] := by
      rw [← hedge, ← heq]
      exact List.mem_append_right _ List.mem_cons_self
    cases List.mem_singleton.mp hsame
    rw [List.any_eq_false] at hnone
    exact hnone _ hmem (decide_eq_true rfl)

/-- Edges to END that are behind the edges stay there, or stand before the next edge. -/
theorem stray_of_effect {l : String} (hlast : g.lastNode = some l)
    (hT : Endings g.nodes.keys T) (hne : T ≠ []) (he : Effect g T h k)
    (hother : Leaves g h → T ≠ h.closingEdge) : Stray k h := by
  have hT' : Endings h.nodes.keys T := hT.mono he.keys
  cases he.change with
  | leaves same => exact .more (same.2.trans hlast) hT' hne (hother same)
  | starts stays last fresh mem =>
    refine .more last hT' hne ?_
    rintro rfl
    rcases closingEdge_eq h with hnil | ⟨l', hlast', hedge, -⟩
    · exact hne hnil
    · cases last.symm.trans hlast'
      rw [hedge] at hT
      obtain ⟨n, hn, heq⟩ := hT _ List.mem_cons_self
      cases heq
      exact fresh hn
  | @ends _ n edges last same =>
    subst same
    obtain ⟨m, T', rfl⟩ := hT.exists_cons hne
    by_cases hmn : n = m
    · subst hmn
      have hmore : { h with edges := g.edges ++ .plain n .END :: T' ++ [.plain n .END] } =
          ahead (T' ++ [.plain n .END]) h := by
        unfold ahead
        rw [edges]
        simp
      rw [hmore]
      refine .more (last.trans hlast) ?_ (by simp) ?_
      · intro e hmem
        refine hT' e ?_
        rcases List.mem_append.mp hmem with hmem | hmem
        · exact List.mem_cons_of_mem _ hmem
        · rw [List.mem_singleton.mp hmem]
          exact List.mem_cons_self
      · refine append_ne_closingEdge ?_ T'
        rw [edges]
        exact List.mem_append_right _ List.mem_cons_self
    · refine .apart ?_
      rw [edges, List.append_assoc]
      refine apart_of_ne (fun heq => hmn ?_) _ _ _
      cases heq
      rfl
  | adds other edges more =>
    obtain ⟨m, T', rfl⟩ := hT.exists_cons hne
    refine .apart ?_
    rw [edges, more, List.append_assoc]
    refine apart_of_ne ?_ _ _ _
    rintro rfl
    cases other

/-! ## Every call -/

theorem effect_of_open {o : Op} (hopen : o.closes g = false) (hT : Endings g.nodes.keys T) :
    Effect g T (o.apply g) (o.apply (ahead T g)) := by
  cases hc : o.compiles with
  | false => exact effect_op o hc hT
  | true =>
    have hv : valid g = false := by simpa [Op.closes, hc] using hopen
    rw [apply_of_invalid hc hv, apply_of_invalid hc ((valid_ahead hT).trans hv)]
    exact effect_of_grown (.refl g)

theorem apply_of_closes {o : Op} (h : o.closes g = true) :
    ∃ G, g.compile 50 = .ok G ∧ o.apply g = o.rest G (closed g) := by
  obtain ⟨hc, hv⟩ := Bool.and_eq_true_iff.mp h
  obtain ⟨G, hG⟩ := compile_of_valid hv 50
  exact ⟨G, hG, apply_of_valid hc hv hG⟩

theorem lastNode_closed (g : WorkflowGraph) : (closed g).lastNode = g.lastNode := by
  unfold closed
  split <;> rfl

theorem nodes_closed (g : WorkflowGraph) : (closed g).nodes = g.nodes := by
  unfold closed
  split <;> rfl

theorem edges_follow {l : String} (hlast : g.lastNode = some l) (name : String) :
    (follow name g).edges = g.edges ++ [.plain l (.node name)] := by
  simp [follow, hlast, WorkflowGraph.addEdge]

theorem stays_closed (g : WorkflowGraph) : Stays g.edges (closed g).edges := by
  unfold closed
  split
  · exact .append _ _
  · exact .refl _

theorem stays_rest (o : Op) (G : CompiledGraph) (g : WorkflowGraph) :
    Stays g.edges (o.rest G g).edges := by
  obtain ⟨name, taken, hrest⟩ := rest_cases o
  by_cases htaken : taken g.nodes.keys
  · rw [(hrest G g).1 htaken]
    exact .refl _
  · obtain ⟨-, stored, hfollow⟩ := (hrest G g).2 htaken
    rw [hfollow]
    cases hlast : g.lastNode with
    | some l =>
      rw [edges_follow (g := g.withNode name stored) hlast]
      exact .append _ _
    | none =>
      have hsame : (follow name (g.withNode name stored)).edges = g.edges := by
        simp [follow, WorkflowGraph.withNode, hlast]
      rw [hsame]
      exact .refl _

/-- No call takes an edge away. -/
theorem stays_apply (o : Op) (g : WorkflowGraph) : Stays g.edges (o.apply g).edges := by
  cases hc : o.closes g with
  | false => exact (effect_of_open (T := []) hc nofun).change.stays
  | true =>
    obtain ⟨G, -, hrest⟩ := apply_of_closes hc
    rw [hrest]
    exact (stays_closed g).trans (stays_rest o G _)

theorem placed_rest (hp : Placed g) (o : Op) (G : CompiledGraph) : Placed (o.rest G g) := by
  obtain ⟨name, taken, hrest⟩ := rest_cases o
  by_cases htaken : taken g.nodes.keys
  · rw [(hrest G g).1 htaken]
    exact hp
  · obtain ⟨hfree, stored, hfollow⟩ := (hrest G g).2 htaken
    rw [hfollow]
    intro l hl
    cases hl
    rw [nodes_follow, keys_withNode _ hfree]
    exact List.mem_append_right _ List.mem_cons_self

/-- The last node is one of the nodes, whatever is called. -/
theorem placed_apply (hp : Placed g) (o : Op) : Placed (o.apply g) := by
  cases hc : o.closes g with
  | false =>
    have heffect := effect_of_open (T := []) hc nofun
    intro l hl
    rcases heffect.last l hl with hlast | hmem
    · exact heffect.keys l (hp l hlast)
    · exact hmem
  | true =>
    obtain ⟨G, -, hrest⟩ := apply_of_closes hc
    rw [hrest]
    refine placed_rest ?_ o G
    unfold Placed
    rw [lastNode_closed, nodes_closed]
    exact hp

/-! ## Builders that have come apart stay apart -/

variable {d : WorkflowGraph}

theorem closingEdge_of_leaves (h' : Leaves g h) : h.closingEdge = g.closingEdge := by
  unfold WorkflowGraph.closingEdge
  rw [h'.1, h'.2]

theorem closingEdge_ahead (T : List GraphEdge) (g : WorkflowGraph) :
    (ahead T g).closingEdge = [] ∨ (ahead T g).closingEdge = g.closingEdge := by
  rcases closingEdge_eq (ahead T g) with hnil | ⟨l, hlast, hedge, hnone⟩
  · exact .inl hnil
  · refine .inr ?_
    have hown : g.edges.any (fun e => e.source = l) = false := by
      rw [edges_ahead, List.any_append, Bool.or_eq_false_iff] at hnone
      exact hnone.1
    rw [hedge, WorkflowGraph.closingEdge, show g.lastNode = some l from hlast]
    simp [hown]

theorem length_closingEdge (g : WorkflowGraph) : g.closingEdge.length ≤ 1 := by
  rcases closingEdge_eq g with hnil | ⟨l, -, hedge, -⟩
  · simp [hnil]
  · simp [hedge]

/-- One more `compile`. -/
theorem stray_recompiled (hp : Placed g) (hs : Stray d g) : Stray (closed d) g := by
  cases hs with
  | apart hapart => exact .apart (hapart.stays (stays_closed d) (.refl _))
  | @more _ T l hlast hT hne hother =>
    cases hv : valid (ahead T g) with
    | false =>
      rw [closed_of_invalid hv]
      exact .more hlast hT hne hother
    | true =>
      rw [closed_of_valid hv, ahead_ahead]
      rcases closingEdge_eq (ahead T g) with hnil | ⟨m, -, hedge, -⟩
      · rw [hnil, List.append_nil]
        exact .more hlast hT hne hother
      · refine .more hlast (hT.append (endings_closingEdge (g := ahead T g) hp)) (by simp [hne]) ?_
        intro heq
        have hlength := length_closingEdge g
        rw [← heq, List.length_append, hedge] at hlength
        exact hne (List.length_eq_zero_iff.mp (by simpa using hlength))

/-- A `compile` of both. -/
theorem stray_closed (hs : Stray d g) : Stray (closed d) (closed g) := by
  cases hs with
  | apart hapart => exact .apart (hapart.stays (stays_closed d) (stays_closed g))
  | @more _ T l hlast hT hne hother =>
    cases hv : valid g with
    | false =>
      rw [closed_of_invalid hv, closed_of_invalid ((valid_ahead hT).trans hv)]
      exact .more hlast hT hne hother
    | true =>
      rw [closed_of_valid hv, closed_of_valid ((valid_ahead hT).trans hv)]
      rcases closingEdge_eq g with hnil | ⟨m, hm, hedge, -⟩
      · have hnil' : (ahead T g).closingEdge = [] := by
          rcases closingEdge_ahead T g with h | h
          · exact h
          · rw [h, hnil]
        rw [hnil', hnil, ahead_nil, ahead_nil]
        exact .more hlast hT hne hother
      · obtain ⟨n, T', rfl⟩ := hT.exists_cons hne
        by_cases hnm : n = m
        -- The edge that `compile` adds to the one builder is the first that the other one has more.
        · subst hnm
          have hnil : (ahead (.plain n .END :: T') g).closingEdge = [] := by
            refine closingEdge_of_mem (e := .plain n .END) ?_ ?_
            · exact List.mem_append_right _ List.mem_cons_self
            · intro l' hl'
              cases hm.symm.trans hl'
              rfl
          have hsplit : ahead (.plain n .END :: T') g =
              ahead T' (ahead g.closingEdge g) := by
            rw [ahead_ahead, hedge]
            rfl
          have hrest : T' ≠ [] := by
            rintro rfl
            exact hother hedge.symm
          rw [hnil, ahead_nil, hsplit]
          refine .more hlast ?_ hrest ?_
          · exact fun e he => hT e (List.mem_cons_of_mem _ he)
          · rw [closingEdge_ahead_self]
            exact hrest
        · refine .apart ?_
          rw [ahead_ahead, edges_ahead, edges_ahead, hedge]
          refine apart_of_ne (fun heq => hnm ?_) _ _ _
          cases heq
          rfl

theorem stray_rest (hs : Stray d g) (o : Op) (G G' : CompiledGraph) :
    Stray (o.rest G' d) (o.rest G g) := by
  cases hs with
  | apart hapart => exact .apart (hapart.stays (stays_rest o G' d) (stays_rest o G g))
  | @more _ T l hlast hT hne hother =>
    obtain ⟨name, taken, hrest⟩ := rest_cases o
    by_cases htaken : taken g.nodes.keys
    · rw [(hrest G g).1 htaken, (hrest G' (ahead T g)).1 htaken]
      exact .more hlast hT hne hother
    · obtain ⟨-, stored, hfollow⟩ := (hrest G g).2 htaken
      obtain ⟨-, stored', hfollow'⟩ := (hrest G' (ahead T g)).2 htaken
      obtain ⟨n, T', rfl⟩ := hT.exists_cons hne
      refine .apart ?_
      rw [hfollow, hfollow', edges_follow (g := g.withNode name stored) hlast,
        edges_follow (g := (ahead _ g).withNode name stored') hlast]
      change Apart (g.edges ++ _ ++ _) (g.edges ++ _)
      rw [List.append_assoc]
      refine apart_of_ne ?_ _ _ _
      rintro ⟨⟩

/-- A call on both builders. -/
theorem stray_apply (hs : Stray d g) (o : Op) :
    Stray (o.apply d) (o.apply g) := by
  cases hs with
  | apart hapart => exact .apart (hapart.stays (stays_apply o d) (stays_apply o g))
  | @more _ T l hlast hT hne hother =>
    cases hc : o.closes g with
    | false =>
      refine stray_of_effect hlast hT hne (effect_of_open hc hT) fun hleaves => ?_
      rw [closingEdge_of_leaves hleaves]
      exact hother
    | true =>
      have hc' : o.closes (ahead T g) = true := by
        unfold Op.closes at hc ⊢
        rw [valid_ahead hT, hc]
      obtain ⟨G, -, hrest⟩ := apply_of_closes hc
      obtain ⟨G', -, hrest'⟩ := apply_of_closes hc'
      rw [hrest, hrest']
      exact stray_rest (stray_closed (.more hlast hT hne hother)) o G G'

theorem stray_run (hp : Placed g) (hs : Stray d g) (es : List Event) :
    Stray (withAll d es) (without g es) := by
  induction es generalizing d g with
  | nil => exact hs
  | cons e es ih =>
    cases e with
    | op o => exact ih (placed_apply hp o) (stray_apply hs o)
    | compiled => exact ih hp (stray_recompiled hp hs)

/-- They do not come to the same graph. -/
theorem Stray.edges_ne (hs : Stray d g) {n : Nat} {G G' : CompiledGraph}
    (hd : d.compile n = .ok G') (hg : g.compile n = .ok G) : G'.edges ≠ G.edges := by
  rw [(edges_of_compile hd).1, (edges_of_compile hg).1]
  cases hs with
  | apart hapart => exact (hapart.stays (.append _ _) (.append _ _)).ne
  | @more _ T l hlast hT hne hother =>
    intro heq
    rw [edges_ahead, List.append_assoc] at heq
    have hsame := List.append_cancel_left heq
    have hlength := length_closingEdge g
    rw [← hsame, List.length_append] at hlength
    have hpos := List.length_pos_iff.mpr hne
    have hnil : (ahead T g).closingEdge = [] := List.length_eq_zero_iff.mp (by omega)
    rw [hnil, List.append_nil] at hsame
    exact hother hsame

/-! ## Whole histories -/

/-- The edge that an additional `compile` has added. -/
def pending (early : Bool) (g : WorkflowGraph) : List GraphEdge :=
  if early then g.closingEdge else []

theorem ahead_pending_false (g : WorkflowGraph) : ahead (pending false g) g = g := ahead_nil g

theorem endings_pending (hp : Placed g) (early : Bool) :
    Endings g.nodes.keys (pending early g) := by
  cases early with
  | false => exact nofun
  | true => exact endings_closingEdge hp

theorem closed_pending (hp : Placed g) (early : Bool) :
    closed (ahead (pending early g) g) = ahead (pending (early || addsEdge g) g) g := by
  have hv' := valid_ahead (endings_pending hp early)
  cases hv : valid g with
  | false =>
    have hadds : addsEdge g = false := by simp [addsEdge, hv]
    rw [closed_of_invalid (hv'.trans hv), hadds, Bool.or_false]
  | true =>
    cases early with
    | true =>
      change closed (ahead g.closingEdge g) = ahead g.closingEdge g
      rw [closed_ahead_self hp hv, closed_of_valid hv]
    | false =>
      rw [ahead_pending_false, closed_of_valid hv, Bool.false_or]
      rcases closingEdge_eq g with hnil | ⟨l, -, hedge, -⟩
      · rw [hnil]
        unfold pending
        split
        · rw [hnil]
        · rfl
      · have hadds : addsEdge g = true := by simp [addsEdge, hv, hedge]
        rw [hadds]
        rfl

theorem apply_pending (hp : Placed g) (early : Bool) {o : Op} (hc : o.closes g = true) :
    o.apply (ahead (pending early g) g) = o.apply g := by
  cases early with
  | false => rw [ahead_pending_false]
  | true =>
    change o.apply (ahead g.closingEdge g) = o.apply g
    have hends := endings_closingEdge hp
    have hc' : o.closes (ahead g.closingEdge g) = true := by
      unfold Op.closes at hc ⊢
      rw [valid_ahead hends, hc]
    obtain ⟨G, hG, hrest⟩ := apply_of_closes hc
    obtain ⟨G', hG', hrest'⟩ := apply_of_closes hc'
    rw [compile_ahead_self hp, hG] at hG'
    cases hG'
    rw [hrest, hrest', closed_ahead_self hp (Bool.and_eq_true_iff.mp hc).2]

/-- A call that leaves the edges and the last node does the same in front of the edge to END. -/
theorem ahead_of_leaves (he : Effect g T h k) (hleaves : Leaves g h) : k = ahead T h := by
  cases he.change with
  | leaves same => rfl
  | starts stays last fresh mem => rfl
  | ends edges =>
    have hsame := edges.symm.trans hleaves.1
    simp at hsame
  | adds _ edges =>
    have hsame := edges.symm.trans hleaves.1
    simp at hsame

/-- One call on the two builders, where the graph is not compiled. -/
theorem open_cases (hp : Placed g) {early : Bool} (hearly : early = true → g.closingEdge ≠ [])
    {o : Op} (hc : o.closes g = false) :
    ((early = true → Leaves g (o.apply g)) →
      o.apply (ahead (pending early g) g) = ahead (pending early (o.apply g)) (o.apply g)) ∧
    (¬ (early = true → Leaves g (o.apply g)) →
      Stray (o.apply (ahead (pending early g) g)) (o.apply g)) := by
  cases early with
  | false =>
    refine ⟨fun _ => ?_, fun hnot => (hnot nofun).elim⟩
    rw [ahead_pending_false, ahead_pending_false]
  | true =>
    have heffect := effect_of_open hc (endings_closingEdge hp)
    refine ⟨fun hleaves => ?_, fun hnot => ?_⟩
    · rw [show pending true (o.apply g) = g.closingEdge from
        closingEdge_of_leaves (hleaves rfl)]
      exact ahead_of_leaves heffect (hleaves rfl)
    · rcases closingEdge_eq g with hnil | ⟨l, hlast, -, -⟩
      · exact (hearly rfl hnil).elim
      · refine stray_of_effect hlast (endings_closingEdge hp) (hearly rfl) heffect fun hleaves => ?_
        exact (hnot fun _ => hleaves).elim

/-- The two builders differ in the edge to END at most, or they have come apart. -/
theorem run_cases (hp : Placed g) (early : Bool) (hearly : early = true → g.closingEdge ≠ [])
    (es : List Event) :
    (Harmless g early es → ∃ early', withAll (ahead (pending early g) g) es =
      ahead (pending early' (without g es)) (without g es)) ∧
    (¬ Harmless g early es → Stray (withAll (ahead (pending early g) g) es) (without g es)) := by
  induction es generalizing g early with
  | nil => exact ⟨fun _ => ⟨early, rfl⟩, fun hnot => (hnot trivial).elim⟩
  | cons e es ih =>
    cases e with
    | compiled =>
      rw [withAll, without, Harmless, closed_pending hp]
      refine ih hp (early || addsEdge g) fun hadds => ?_
      rcases Bool.or_eq_true_iff.mp hadds with hearly' | hadds
      · exact hearly hearly'
      · simpa using (Bool.and_eq_true_iff.mp hadds).2
    | op o =>
      rw [withAll, without, Harmless]
      have hp' := placed_apply hp o
      cases hc : o.closes g with
      | true =>
        have hrun := ih hp' false nofun
        rw [ahead_pending_false] at hrun
        rw [if_pos rfl, apply_pending hp early hc]
        exact hrun
      | false =>
        rw [if_neg Bool.false_ne_true]
        obtain ⟨hsame, hstray⟩ := open_cases hp hearly hc
        by_cases hstep : early = true → Leaves g (o.apply g)
        · rw [hsame hstep]
          have hrun := ih hp' early fun he => by
            rw [closingEdge_of_leaves (hstep he)]
            exact hearly he
          exact ⟨fun hboth => hrun.1 hboth.2, fun hnot => hrun.2 fun h => hnot ⟨hstep, h⟩⟩
        · refine ⟨fun hboth => (hstep hboth.1).elim, fun _ => ?_⟩
          exact stray_run hp' (hstray hstep) es

theorem compile_pending (hp : Placed g) (early : Bool) (n : Nat) :
    (ahead (pending early g) g).compile n = g.compile n := by
  cases early with
  | false => rw [ahead_pending_false]
  | true => exact compile_ahead_self hp n

theorem placed_without (hp : Placed g) (es : List Event) : Placed (without g es) := by
  induction es generalizing g with
  | nil => exact hp
  | cons e es ih =>
    cases e with
    | op o => exact ih (placed_apply hp o)
    | compiled => exact ih hp

/-- The graphs have the same nodes, edges, handoffs and entry point. -/
def SameGraph (G G' : CompiledGraph) : Prop :=
  G'.nodes = G.nodes ∧ G'.edges = G.edges ∧ G'.handoffEdges = G.handoffEdges ∧
    G'.entryPoint = G.entryPoint

/-- A function without a result. -/
def idle (name : String) : Item := ⟨.callable fun _ _ => .ok .empty, none, some name, 0⟩

/-- A builder that is run before its chain is complete. -/
def runEarly : List Event :=
  [.op (.call (.thenNode (idle "plan") none false false)), .compiled,
    .op (.call (.thenNode (idle "write") none false false))]

/-- The chain ends at its first node. -/
theorem a_compile_ends_the_chain :
    ∃ G G', (without (.new none "") runEarly).compile 50 = .ok G ∧
      (withAll (.new none "") runEarly).compile 50 = .ok G' ∧
      G.edges = [.plain "plan" (.node "write"), .plain "write" .END] ∧
      G'.edges = [.plain "plan" .END, .plain "plan" (.node "write"), .plain "write" .END] ∧
      ¬ SameGraph G G' := by
  refine ⟨_, _, rfl, rfl, rfl, rfl, ?_⟩
  rintro ⟨-, hedges, -⟩
  exact absurd (congrArg List.length hedges) (by decide)

/-- Additional compiles do not change the graph that is compiled in the end if and only if the
history is harmless: no call comes behind an edge that one of them has added, but for those that
leave the edges and the last node. -/
theorem compiles_change_nothing_iff (schema : Option Schema) (name : String) (es : List Event)
    (n : Nat) (G : CompiledGraph) (hG : (without (.new schema name) es).compile n = .ok G) :
    (∃ G', (withAll (.new schema name) es).compile n = .ok G' ∧ SameGraph G G') ↔
      Harmless (.new schema name) false es := by
  have hp : Placed (.new schema name) := nofun
  obtain ⟨hsame, hstray⟩ := run_cases hp false nofun es
  rw [ahead_pending_false] at hsame hstray
  constructor
  · rintro ⟨G', hG', -, hedges, -⟩
    by_contra hnot
    exact (hstray hnot).edges_ne hG' hG hedges
  · intro hharmless
    obtain ⟨early, hrun⟩ := hsame hharmless
    refine ⟨G, ?_, rfl, rfl, rfl, rfl⟩
    rw [hrun, compile_pending (placed_without hp es), hG]

/-- A builder that is run, then told where to start, and run again. -/
def runTwice : List Event :=
  [.op (.call (.thenNode (idle "plan") none false false)), .compiled, .op (.setEntryPoint "plan"),
    .compiled]

theorem a_compile_before_the_entry_point_changes_nothing :
    ∃ G G', (without (.new none "") runTwice).compile 50 = .ok G ∧
      (withAll (.new none "") runTwice).compile 50 = .ok G' ∧ SameGraph G G' := by
  have hG : ∃ G, (without (.new none "") runTwice).compile 50 = .ok G := ⟨_, rfl⟩
  obtain ⟨G, hG⟩ := hG
  obtain ⟨G', hG', hsame⟩ := (compiles_change_nothing_iff none "" runTwice 50 G hG).mpr
    ⟨nofun, fun _ => ⟨rfl, rfl⟩, trivial⟩
  exact ⟨G, G', hG, hG', hsame⟩

end orchestra.recompiling
