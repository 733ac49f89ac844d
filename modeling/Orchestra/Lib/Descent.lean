-- A recursion that goes through the calls of a node one after another, and may refuse the node
-- once they are done. The first node that is refused ends it.
import Mathlib.Data.Fintype.Card
import Mathlib.Data.Set.Finite.Lattice
import Mathlib.Logic.Relation

namespace descents

variable {α : Type} (calls : α → List α) (refuses : α → Prop)

/-- Nothing that the recursion meets at or below the node is refused. -/
inductive Accepted : α → Prop
  | node {x : α} (below : ∀ c ∈ calls x, Accepted c) (here : ¬ refuses x) : Accepted x

/-- The recursion goes from `x` to its call `c`: the calls before are accepted. -/
def Enters (x c : α) : Prop :=
  ∃ before after, calls x = before ++ c :: after ∧ ∀ b ∈ before, Accepted calls refuses b

/-- No chain of nodes, each of them entered from the one before, goes on for ever. -/
def Ends (x : α) : Prop := Acc (fun c x => Enters calls refuses x c) x

/-- No node that the recursion comes to from `x` is entered again below itself. -/
def NoCircle (x : α) : Prop :=
  ∀ y, Relation.ReflTransGen (Enters calls refuses) x y →
    ¬ Relation.TransGen (Enters calls refuses) y y

variable {calls refuses}

theorem accepted_iff {x : α} :
    Accepted calls refuses x ↔ (∀ c ∈ calls x, Accepted calls refuses c) ∧ ¬ refuses x := by
  constructor
  · rintro ⟨below, here⟩
    exact ⟨below, here⟩
  · rintro ⟨below, here⟩
    exact .node below here

/-- The calls of a node, up to the first one that is refused. `none` says that the recursion was
cut off. -/
def visitAll (visit : α → Option Bool) : List α → Option Bool
  | [] => some true
  | c :: rest =>
    match visit c with
    | some true => visitAll visit rest
    | other => other

theorem visitAll_mono {v w : α → Option Bool} (h : ∀ c b, v c = some b → w c = some b)
    {l : List α} {b : Bool} (hl : visitAll v l = some b) : visitAll w l = some b := by
  induction l with
  | nil => exact hl
  | cons c rest ih =>
    unfold visitAll at hl ⊢
    cases hc : v c with
    | none =>
      rw [hc] at hl
      cases hl
    | some found =>
      rw [hc] at hl
      rw [h c found hc]
      cases found with
      | true => exact ih hl
      | false => exact hl

theorem visitAll_true_iff {v : α → Option Bool}
    (h : ∀ c b, v c = some b → (b = true ↔ Accepted calls refuses c)) {l : List α} {b : Bool}
    (hl : visitAll v l = some b) : b = true ↔ ∀ c ∈ l, Accepted calls refuses c := by
  induction l with
  | nil =>
    cases hl
    simp
  | cons c rest ih =>
    rw [List.forall_mem_cons]
    unfold visitAll at hl
    cases hc : v c with
    | none =>
      rw [hc] at hl
      cases hl
    | some found =>
      have hfound := h c found hc
      rw [hc] at hl
      cases found with
      | true => rw [ih hl, ← hfound, eq_self, true_and]
      | false =>
        cases hl
        rw [← hfound]
        simp

theorem visited_of_visitAll {v : α → Option Bool} {before after : List α} {c : α}
    (hbefore : ∀ d ∈ before, ∀ b, v d = some b → b = true) {b : Bool}
    (h : visitAll v (before ++ c :: after) = some b) : ∃ found, v c = some found := by
  induction before with
  | nil =>
    rw [List.nil_append, visitAll] at h
    cases hc : v c with
    | none =>
      rw [hc] at h
      cases h
    | some found => exact ⟨found, rfl⟩
  | cons d before ih =>
    rw [List.cons_append, visitAll] at h
    cases hd : v d with
    | none =>
      rw [hd] at h
      cases h
    | some found =>
      obtain rfl := hbefore d List.mem_cons_self found hd
      rw [hd] at h
      exact ih (fun e he => hbefore e (List.mem_cons_of_mem d he)) h

variable (calls refuses) [DecidablePred refuses]

/-- The recursion, cut off at so many levels. -/
def visit : Nat → α → Option Bool
  | 0, _ => none
  | levels + 1, x =>
    (visitAll (visit levels) (calls x)).map fun found => found && !decide (refuses x)

variable {calls refuses}

theorem visit_succ {levels : Nat} {x : α} {b : Bool} (h : visit calls refuses levels x = some b) :
    visit calls refuses (levels + 1) x = some b := by
  induction levels generalizing x b with
  | zero => cases h
  | succ levels ih =>
    obtain ⟨found, hall, rfl⟩ := Option.map_eq_some_iff.mp h
    exact Option.map_eq_some_iff.mpr ⟨found, visitAll_mono (fun c b hc => ih hc) hall, rfl⟩

theorem visit_mono {levels more : Nat} (hle : levels ≤ more) {x : α} {b : Bool}
    (h : visit calls refuses levels x = some b) : visit calls refuses more x = some b := by
  induction hle with
  | refl => exact h
  | step _ ih => exact visit_succ ih

/-- A recursion that is not cut off tells which nodes are accepted. -/
theorem visit_true_iff {levels : Nat} {x : α} {b : Bool}
    (h : visit calls refuses levels x = some b) : b = true ↔ Accepted calls refuses x := by
  induction levels generalizing x b with
  | zero => cases h
  | succ levels ih =>
    obtain ⟨found, hall, rfl⟩ := Option.map_eq_some_iff.mp h
    rw [accepted_iff, ← visitAll_true_iff (fun c b hc => ih hc) hall]
    simp

theorem ends_of_visit {levels : Nat} {x : α} {b : Bool}
    (h : visit calls refuses levels x = some b) : Ends calls refuses x := by
  induction levels generalizing x b with
  | zero => cases h
  | succ levels ih =>
    obtain ⟨found, hall, -⟩ := Option.map_eq_some_iff.mp h
    refine .intro x ?_
    rintro c ⟨before, after, hcalls, hbefore⟩
    rw [hcalls] at hall
    obtain ⟨b, hb⟩ := visited_of_visitAll
      (fun d hd b hvisit => (visit_true_iff hvisit).mpr (hbefore d hd)) hall
    exact ih hb

theorem visit_of_ends {x : α} (h : Ends calls refuses x) :
    ∃ levels b, visit calls refuses levels x = some b := by
  induction h with
  | intro x _ ih =>
    -- The calls that are left are visited when those before them are accepted.
    have hrest : ∀ rest before, calls x = before ++ rest →
        (∀ d ∈ before, Accepted calls refuses d) →
          ∃ levels b, visitAll (visit calls refuses levels) rest = some b := by
      intro rest
      induction rest with
      | nil => exact fun _ _ _ => ⟨0, true, rfl⟩
      | cons c rest ihrest =>
        intro before hcalls hbefore
        obtain ⟨levels, b, hc⟩ := ih c ⟨before, rest, hcalls, hbefore⟩
        cases b with
        | false => exact ⟨levels, false, by rw [visitAll, hc]⟩
        | true =>
          have haccepted := (visit_true_iff hc).mp rfl
          obtain ⟨more, b, hb⟩ := ihrest (before ++ [c]) (by rw [hcalls, List.append_assoc]; rfl)
            (fun d hd => (List.mem_append.mp hd).elim (hbefore d)
              fun hlast => List.mem_singleton.mp hlast ▸ haccepted)
          refine ⟨max levels more, b, ?_⟩
          rw [visitAll, visit_mono (Nat.le_max_left _ _) hc]
          exact visitAll_mono (fun d b hd => visit_mono (Nat.le_max_right _ _) hd) hb
    obtain ⟨levels, b, hb⟩ := hrest (calls x) [] rfl (by simp)
    exact ⟨levels + 1, _, Option.map_eq_some_iff.mpr ⟨b, hb, rfl⟩⟩

/-- The recursion comes to its end exactly where no chain of entered nodes goes on for ever. -/
theorem visit_iff_ends {x : α} :
    (∃ levels b, visit calls refuses levels x = some b) ↔ Ends calls refuses x :=
  ⟨fun ⟨_, _, h⟩ => ends_of_visit h, visit_of_ends⟩

/-! ## Circles -/

omit [DecidablePred refuses]

theorem noCircle_of_ends {x : α} (h : Ends calls refuses x) : NoCircle calls refuses x := by
  induction h with
  | intro x _ ih =>
    intro y hreach hcircle
    rcases Relation.ReflTransGen.cases_head hreach with rfl | ⟨c, hc, hrest⟩
    · -- A circle through `x` goes through the node that it enters first.
      obtain ⟨c, hc, hback⟩ := Relation.TransGen.head'_iff.mp hcircle
      exact ih c hc c .refl (Relation.TransGen.tail' hback hc)
    · exact ih c hc y hrest hcircle

/-- Where the recursion can come to finitely many nodes only, nothing but a circle keeps it from
its end. -/
theorem ends_iff_noCircle {x : α}
    (hfinite : {y | Relation.ReflTransGen (Enters calls refuses) x y}.Finite) :
    Ends calls refuses x ↔ NoCircle calls refuses x := by
  refine ⟨noCircle_of_ends, fun hno => ?_⟩
  let reached := {y // Relation.ReflTransGen (Enters calls refuses) x y}
  let after (a b : reached) : Prop := Relation.TransGen (Enters calls refuses) b.1 a.1
  have : Finite reached := hfinite
  have : IsTrans reached after := ⟨fun _ _ _ hab hbc => hbc.trans hab⟩
  have : Std.Irrefl after := ⟨fun a hcircle => hno a.1 a.2 hcircle⟩
  have hall : ∀ a : reached, Ends calls refuses a.1 := by
    intro a
    induction a using (Finite.wellFounded_of_trans_of_irrefl after).induction with
    | _ a ih => exact .intro a.1 fun c hc => ih ⟨c, a.2.tail hc⟩ (.single hc)
  exact hall ⟨x, .refl⟩

/-- What is in a node, at any depth, is finite when it is for each of its parts. -/
theorem finite_below {parts : α → List α} (hwf : WellFounded fun c x => c ∈ parts x) (x : α) :
    {y | Relation.ReflTransGen (fun x c => c ∈ parts x) x y}.Finite := by
  induction x using hwf.induction with
  | _ x ih =>
    have hsub : {y | Relation.ReflTransGen (fun x c => c ∈ parts x) x y} ⊆
        {x} ∪ ⋃ c ∈ {c | c ∈ parts x},
          {y | Relation.ReflTransGen (fun x c => c ∈ parts x) c y} := by
      intro y hy
      rcases Relation.ReflTransGen.cases_head hy with rfl | ⟨c, hc, hrest⟩
      · exact Or.inl rfl
      · exact Or.inr (Set.mem_biUnion hc hrest)
    refine ((Set.finite_singleton x).union ?_).subset hsub
    exact (List.finite_toSet (parts x)).biUnion fun c hc => ih c hc

end descents
