-- A climb along the links of a partial function: visit a node, then go on to
-- the next one, until a visit stops the climb or a node has no next one. A node
-- that comes up twice is a cycle, and ends the climb with an error.
import Mathlib.Data.Finset.Card
import Mathlib.Data.Finset.Dedup
import Mathlib.Logic.Relation

namespace climbs

variable {κ σ ε : Type}

/-! ## Links -/

/-- `a` is `t` or lies above it. -/
def Above (next : κ → Option κ) : κ → κ → Prop := Relation.ReflTransGen (fun x y => next x = some y)

/-- A list that holds `t`, and with each node the next one, holds all above `t`. -/
theorem mem_of_above {next : κ → Option κ} {path : List κ} {t a : κ} (ht : t ∈ path)
    (hclosed : ∀ x ∈ path, ∀ y, next x = some y → y ∈ path) (h : Above next t a) : a ∈ path := by
  induction h with
  | refl => exact ht
  | tail _ hstep ih => exact hclosed _ ih _ hstep

/-- What lies above `t` is not changed by links that agree there. -/
theorem above_congr {next next' : κ → Option κ} {t : κ}
    (h : ∀ x, Above next t x → next' x = next x) (a : κ) :
    Above next' t a ↔ Above next t a := by
  constructor
  · intro ha
    induction ha with
    | refl => exact .refl
    | tail _ hstep ih => exact ih.tail (by rwa [← h _ ih])
  · intro ha
    induction ha with
    | refl => exact .refl
    | tail hbelow hstep ih => exact ih.tail (by rwa [h _ hbelow])

/-- A node seen for the first time leaves fewer nodes to see. -/
theorem card_sdiff_cons_lt [DecidableEq κ] {keys : Finset κ} {seen : List κ} {t : κ} (ht : t ∈ keys)
    (hseen : t ∉ seen) : (keys \ (t :: seen).toFinset).card < (keys \ seen.toFinset).card := by
  apply Finset.card_lt_card
  rw [Finset.ssubset_iff]
  refine ⟨t, by simp, ?_⟩
  intro a ha
  simp only [Finset.mem_insert, Finset.mem_sdiff, List.mem_toFinset, List.mem_cons, not_or] at ha ⊢
  rcases ha with rfl | ⟨hk, -, hna⟩
  · exact ⟨ht, hseen⟩
  · exact ⟨hk, hna⟩

/-- The nodes from `t` up to one that has no next node. -/
inductive Ascent (next : κ → Option κ) : κ → List κ → Prop
  | top {t : κ} (last : next t = none) : Ascent next t [t]
  | up {t p : κ} {path : List κ} (link : next t = some p) (rest : Ascent next p path) :
    Ascent next t (t :: path)

theorem Ascent.head_mem {next : κ → Option κ} {t : κ} {path : List κ} (h : Ascent next t path) :
    t ∈ path := by
  cases h <;> simp

theorem Ascent.closed {next : κ → Option κ} {t : κ} {path : List κ} (h : Ascent next t path) :
    ∀ x ∈ path, ∀ y, next x = some y → y ∈ path := by
  induction h with
  | top hlast =>
    intro x hx y hy
    rw [List.mem_singleton.mp hx, hlast] at hy
    cases hy
  | up hlink hrest ih =>
    intro x hx y hy
    rcases List.mem_cons.mp hx with rfl | hx
    · rw [hlink] at hy
      cases hy
      exact List.mem_cons_of_mem _ hrest.head_mem
    · exact List.mem_cons_of_mem _ (ih x hx y hy)

theorem Ascent.congr {next next' : κ → Option κ} {t : κ} {path : List κ}
    (h : Ascent next t path) (hsame : ∀ a ∈ path, next' a = next a) : Ascent next' t path := by
  induction h with
  | @top t hlast => exact .top (by rw [hsame t (by simp), hlast])
  | @up t p path hlink _ ih =>
    refine .up ?_ (ih fun a ha => hsame a (List.mem_cons_of_mem _ ha))
    rw [hsame t (by simp), hlink]

theorem Ascent.above {next : κ → Option κ} {t : κ} {path : List κ} (h : Ascent next t path) :
    ∀ a ∈ path, Above next t a := by
  induction h with
  | top _ =>
    intro a ha
    rw [List.mem_singleton.mp ha]
    exact .refl
  | up hlink _ ih =>
    intro a ha
    rcases List.mem_cons.mp ha with rfl | ha
    · exact .refl
    · exact (ih a ha).head hlink

theorem Ascent.mem_iff {next : κ → Option κ} {t a : κ} {path : List κ} (h : Ascent next t path) :
    a ∈ path ↔ Above next t a :=
  ⟨h.above a, mem_of_above h.head_mem h.closed⟩

/-! ## Acyclic links -/

/-- No node from `t` on lies above itself. -/
def Acyclic (next : κ → Option κ) (t : κ) : Prop :=
  ∀ a, Above next t a → ¬Relation.TransGen (fun x y => next x = some y) a a

theorem Acyclic.up {next : κ → Option κ} {t p : κ} (h : Acyclic next t) (hlink : next t = some p) :
    Acyclic next p :=
  fun a ha => h a (ha.head hlink)

/-- A way to the top goes round no cycle. -/
theorem Ascent.acyclic {next : κ → Option κ} {t : κ} {path : List κ} (h : Ascent next t path) :
    Acyclic next t := by
  induction h with
  | @top t hlast =>
    intro a ha hcycle
    have hlinked : ∃ b, next a = some b := by
      obtain ⟨b, hlink, -⟩ := Relation.TransGen.head'_iff.mp hcycle
      exact ⟨b, hlink⟩
    obtain ⟨b, hlink⟩ := hlinked
    rcases ha.cases_head with rfl | ⟨c, hfirst, -⟩
    · rw [hlast] at hlink
      cases hlink
    · rw [hlast] at hfirst
      cases hfirst
  | @up t p path hlink hrest ih =>
    intro a ha hcycle
    rcases ha.cases_head with rfl | ⟨c, hfirst, hc⟩
    · obtain ⟨c, hfirst, hc⟩ := Relation.TransGen.head'_iff.mp hcycle
      rw [hlink] at hfirst
      obtain rfl := Option.some.inj hfirst
      exact ih t hc hcycle
    · rw [hlink] at hfirst
      obtain rfl := Option.some.inj hfirst
      exact ih a hc hcycle

theorem Ascent.nodup {next : κ → Option κ} {t : κ} {path : List κ} (h : Ascent next t path) :
    path.Nodup := by
  induction h with
  | top _ => simp
  | @up t p path hlink hrest ih =>
    refine List.nodup_cons.mpr ⟨fun ht => ?_, ih⟩
    have hcycle : Relation.TransGen (fun x y => next x = some y) t t :=
      .head' hlink (hrest.above t ht)
    exact (Ascent.up hlink hrest).acyclic t .refl hcycle

section

variable [DecidableEq κ] (next : κ → Option κ)

/-- The nodes from `t` on, up to `fuel` of them, until one comes up again. -/
def chain : Nat → List κ → κ → List κ
  | 0, _, _ => []
  | fuel + 1, seen, t =>
    if t ∈ seen then []
    else t :: match next t with
      | none => []
      | some p => chain fuel (t :: seen) p

variable {next}

theorem above_of_mem_chain {fuel : Nat} {seen : List κ} {t a : κ}
    (h : a ∈ chain next fuel seen t) : Above next t a := by
  induction fuel generalizing seen t with
  | zero => cases h
  | succ fuel ih =>
    rw [chain] at h
    by_cases hseen : t ∈ seen
    · rw [if_pos hseen] at h
      cases h
    rw [if_neg hseen] at h
    rcases List.mem_cons.mp h with rfl | h
    · exact .refl
    rcases hn : next t with _ | p
    · simp [hn] at h
    · simp only [hn] at h
      exact (ih h).head hn

/-- A chain with enough fuel is closed, but for what was seen before it. -/
theorem chain_closed {keys : Finset κ} (hkeys : ∀ t p, next t = some p → t ∈ keys) {fuel : Nat}
    {seen : List κ} (hfuel : (keys \ seen.toFinset).card < fuel) {t : κ} :
    (t ∈ chain next fuel seen t ∨ t ∈ seen) ∧
      ∀ x ∈ chain next fuel seen t, ∀ y, next x = some y →
        y ∈ chain next fuel seen t ∨ y ∈ seen := by
  induction fuel generalizing seen t with
  | zero => omega
  | succ fuel ih =>
    rw [chain]
    by_cases hseen : t ∈ seen
    · simp [hseen]
    rw [if_neg hseen]
    refine ⟨Or.inl (List.mem_cons_self ..), ?_⟩
    rcases hn : next t with _ | p
    · intro x hx y hy
      rw [List.mem_singleton.mp hx, hn] at hy
      cases hy
    have hlt : (keys \ (t :: seen).toFinset).card < fuel := by
      have := card_sdiff_cons_lt (hkeys _ _ hn) hseen
      omega
    obtain ⟨hhead, hrest⟩ := ih hlt
    intro x hx y hy
    have hwiden : ∀ z, z ∈ chain next fuel (t :: seen) p ∨ z ∈ t :: seen →
        z ∈ t :: chain next fuel (t :: seen) p ∨ z ∈ seen := by
      intro z hz
      simp only [List.mem_cons] at hz ⊢
      tauto
    rcases List.mem_cons.mp hx with rfl | hx
    · rw [hn] at hy
      cases hy
      exact hwiden _ hhead
    · exact hwiden _ (hrest x hx y hy)

/-- With enough fuel, the chain holds all that lies above. -/
theorem mem_chain_iff {keys : Finset κ} (hkeys : ∀ t p, next t = some p → t ∈ keys) {fuel : Nat}
    (hfuel : keys.card < fuel) {t a : κ} : a ∈ chain next fuel [] t ↔ Above next t a := by
  constructor
  · exact above_of_mem_chain
  · intro h
    have hfuel' : (keys \ ([] : List κ).toFinset).card < fuel := by simpa using hfuel
    obtain ⟨hhead, hclosed⟩ := chain_closed hkeys hfuel' (t := t)
    simp only [List.not_mem_nil, or_false] at hhead hclosed
    exact mem_of_above hhead hclosed h

end

/-! ## The path of a climb -/

section

variable (next : κ → Option κ) (visit : κ → σ → Except ε (σ × Bool))

/-- A climb from `t` that ends well, and the nodes that it visits. -/
inductive Climbs : κ → σ → List κ → σ → Prop
  | stop {t : κ} {s s' : σ} (visited : visit t s = .ok (s', false)) : Climbs t s [t] s'
  | top {t : κ} {s s' : σ} (visited : visit t s = .ok (s', true)) (last : next t = none) :
    Climbs t s [t] s'
  | up {t p : κ} {s s' s'' : σ} {path : List κ} (visited : visit t s = .ok (s', true))
    (link : next t = some p) (rest : Climbs p s' path s'') : Climbs t s (t :: path) s''

variable {next visit}

theorem Climbs.head_mem {t : κ} {s s' : σ} {path : List κ}
    (h : Climbs next visit t s path s') : t ∈ path := by
  cases h <;> simp

theorem Climbs.above {t : κ} {s s' : σ} {path : List κ} (h : Climbs next visit t s path s') :
    ∀ a ∈ path, Above next t a := by
  induction h with
  | stop _ =>
    intro a ha
    rw [List.mem_singleton.mp ha]
    exact .refl
  | top _ _ =>
    intro a ha
    rw [List.mem_singleton.mp ha]
    exact .refl
  | up _ hn _ ih =>
    intro a ha
    rcases List.mem_cons.mp ha with rfl | ha
    · exact .refl
    · exact (ih a ha).head hn

/-- What every visit keeps, a climb keeps. -/
theorem Climbs.keeps {P : σ → Prop}
    (hkeep : ∀ a u u' goOn, P u → visit a u = .ok (u', goOn) → P u') {t : κ} {s s' : σ}
    {path : List κ} (h : Climbs next visit t s path s') (hs : P s) : P s' := by
  induction h with
  | @stop t s s' hv => exact hkeep t s s' false hs hv
  | @top t s s' hv _ => exact hkeep t s s' true hs hv
  | @up t p s s' s'' path hv _ _ ih => exact ih (hkeep t s s' true hs hv)

/-- A climb whose visits either stop and change nothing or go on with `f` folds
`f` over its path, or over all of it but the node that stopped it. `Q` holds of
the nodes that were gone through, when each visit in a state with `P` says so. -/
theorem Climbs.folds {f : κ → σ → σ} {P : σ → Prop} {Q : κ → Prop}
    (hgo : ∀ a u u', P u → visit a u = .ok (u', true) → u' = f a u ∧ P u' ∧ Q a)
    (hstop : ∀ a u u', visit a u = .ok (u', false) → u' = u) {t : κ} {s s' : σ} {path : List κ}
    (h : Climbs next visit t s path s') (hs : P s) :
    ∃ gone, s' = gone.foldl (fun u a => f a u) s ∧ (∀ x ∈ gone, Q x) ∧
      ((path = gone ∧ Ascent next t path) ∨
        ∃ a, path = gone ++ [a] ∧ visit a s' = .ok (s', false)) := by
  induction h with
  | @stop t s s' hv =>
    have heq := hstop t s s' hv
    subst heq
    exact ⟨[], rfl, by simp, Or.inr ⟨t, rfl, hv⟩⟩
  | @top t s s' hv hn =>
    obtain ⟨heq, -, hQ⟩ := hgo t s s' hs hv
    exact ⟨[t], heq, by simpa using hQ, Or.inl ⟨rfl, .top hn⟩⟩
  | @up t p s s' s'' path hv hn rest ih =>
    obtain ⟨heq, hP, hQ⟩ := hgo t s s' hs hv
    subst heq
    obtain ⟨gone, hfold, hgone, hend⟩ := ih hP
    refine ⟨t :: gone, hfold, ?_, ?_⟩
    · intro x hx
      rcases List.mem_cons.mp hx with rfl | hx
      · exact hQ
      · exact hgone x hx
    rcases hend with ⟨rfl, hascent⟩ | ⟨a, rfl, hlast⟩
    · exact Or.inl ⟨rfl, .up hn hascent⟩
    · exact Or.inr ⟨a, rfl, hlast⟩

/-- A climb whose visits all go on with `f` folds `f` over the way to the top. -/
theorem climbs_of_ascent {f : κ → σ → σ} (hvisit : ∀ a u, visit a u = .ok (f a u, true)) {t : κ}
    {path : List κ} (h : Ascent next t path) (s : σ) :
    Climbs next visit t s path (path.foldl (fun u a => f a u) s) := by
  induction h generalizing s with
  | @top t hlast => exact .top (hvisit t s) hlast
  | @up t p path hlink _ ih => exact .up (hvisit t s) hlink (ih (f t s))

end

/-! ## The climb -/

section

variable [DecidableEq κ] (next : κ → Option κ) (visit : κ → σ → Except ε (σ × Bool))
  (cycle : κ → List κ → ε)

/-- Visit `t` and what lies above it, with at most `fuel` visits. A visit says
whether the climb goes on. -/
def climb : Nat → List κ → κ → σ → Except ε σ
  | 0, visited, t, _ => .error (cycle t visited)
  | fuel + 1, visited, t, s =>
    if t ∈ visited then .error (cycle t visited)
    else
      match visit t s with
      | .error e => .error e
      | .ok (s', false) => .ok s'
      | .ok (s', true) =>
        match next t with
        | none => .ok s'
        | some p => climb fuel (t :: visited) p s'

/-- The climb with the state that it has come to, which a failing visit leaves as it
found it. There is none when the fuel runs out. -/
def trail : Nat → List κ → κ → σ → Option (σ × Except ε Unit)
  | 0, _, _, _ => none
  | fuel + 1, visited, t, s =>
    if t ∈ visited then some (s, .error (cycle t visited))
    else
      match visit t s with
      | .error e => some (s, .error e)
      | .ok (s', false) => some (s', .ok ())
      | .ok (s', true) =>
        match next t with
        | none => some (s', .ok ())
        | some p => trail fuel (t :: visited) p s'

variable {next visit cycle}

theorem climbs_of_climb {fuel : Nat} {visited : List κ} {t : κ} {s s' : σ}
    (h : climb next visit cycle fuel visited t s = .ok s') :
    ∃ path, Climbs next visit t s path s' ∧ path.Nodup ∧ ∀ a ∈ path, a ∉ visited := by
  induction fuel generalizing visited t s with
  | zero => cases h
  | succ fuel ih =>
    rw [climb] at h
    by_cases hseen : t ∈ visited
    · rw [if_pos hseen] at h
      cases h
    rw [if_neg hseen] at h
    rcases hv : visit t s with e | ⟨u, goOn⟩
    · rw [hv] at h
      cases h
    rw [hv] at h
    cases goOn with
    | false =>
      cases h
      exact ⟨[t], .stop hv, by simp, by simpa using hseen⟩
    | true =>
      rcases hn : next t with _ | p
      · simp only [hn] at h
        cases h
        exact ⟨[t], .top hv hn, by simp, by simpa using hseen⟩
      · simp only [hn] at h
        obtain ⟨path, hpath, hnodup, hnew⟩ := ih h
        refine ⟨t :: path, .up hv hn hpath, ?_, ?_⟩
        · refine List.nodup_cons.mpr ⟨fun ht => hnew t ht (by simp), hnodup⟩
        · intro a ha
          rcases List.mem_cons.mp ha with rfl | ha
          · exact hseen
          · exact fun hin => hnew a ha (List.mem_cons_of_mem _ hin)

theorem climb_of_climbs {t : κ} {s s' : σ} {path : List κ} (h : Climbs next visit t s path s')
    (hnodup : path.Nodup) {fuel : Nat} (hfuel : path.length ≤ fuel) {visited : List κ}
    (hnew : ∀ a ∈ path, a ∉ visited) : climb next visit cycle fuel visited t s = .ok s' := by
  induction h generalizing fuel visited with
  | stop hv =>
    obtain ⟨fuel, rfl⟩ : ∃ n, fuel = n + 1 := ⟨fuel - 1, by simp at hfuel; omega⟩
    rw [climb, if_neg (hnew _ (by simp)), hv]
  | top hv hn =>
    obtain ⟨fuel, rfl⟩ : ∃ n, fuel = n + 1 := ⟨fuel - 1, by simp at hfuel; omega⟩
    rw [climb, if_neg (hnew _ (by simp)), hv]
    simp only [hn]
  | up hv hn _ ih =>
    obtain ⟨fuel, rfl⟩ : ∃ n, fuel = n + 1 := ⟨fuel - 1, by simp at hfuel; omega⟩
    rw [climb, if_neg (hnew _ (by simp)), hv]
    simp only [hn]
    obtain ⟨hhead, htail⟩ := List.nodup_cons.mp hnodup
    apply ih htail
    · simp at hfuel
      omega
    · intro a ha hin
      rcases List.mem_cons.mp hin with rfl | hin
      · exact hhead ha
      · exact hnew a (List.mem_cons_of_mem _ ha) hin

end

end climbs
