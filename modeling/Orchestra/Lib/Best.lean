-- The best item of a list by a key, as `max` and `min` of Python find it: of equals the first.
import Mathlib.Order.OrderDual
import Mathlib.Order.Lattice

namespace best

variable {α K : Type} [LinearOrder K] (key : α → K) {first x : α} {rest : List α}

/-- `max(items, key=key)`, of the items `first :: rest`. -/
def maxBy (first : α) (rest : List α) : α :=
  rest.foldl (fun best x => if key best < key x then x else best) first

/-- `min(items, key=key)` -/
def minBy (first : α) (rest : List α) : α :=
  maxBy (fun x => OrderDual.toDual (key x)) first rest

theorem maxBy_cons (first next : α) (rest : List α) :
    maxBy key first (next :: rest) =
      maxBy key (if key first < key next then next else first) rest := rfl

theorem maxBy_mem (first : α) (rest : List α) : maxBy key first rest ∈ first :: rest := by
  induction rest generalizing first with
  | nil => exact List.mem_singleton_self first
  | cons next rest ih =>
    rw [maxBy_cons]
    split
    · exact List.mem_cons_of_mem _ (ih next)
    · rcases List.mem_cons.mp (ih first) with hself | hrest
      · rw [hself]
        exact List.mem_cons_self
      · exact List.mem_cons_of_mem _ (List.mem_cons_of_mem _ hrest)

/-- Starting from a better item does not make the best one worse. -/
theorem le_maxBy_first (first : α) (rest : List α) : key first ≤ key (maxBy key first rest) := by
  induction rest generalizing first with
  | nil => exact le_refl _
  | cons next rest ih =>
    rw [maxBy_cons]
    split
    · rename_i hlt
      exact le_trans (le_of_lt hlt) (ih next)
    · exact ih first

theorem le_maxBy (hx : x ∈ first :: rest) : key x ≤ key (maxBy key first rest) := by
  induction rest generalizing first with
  | nil =>
    rw [List.mem_singleton.mp hx]
    exact le_refl _
  | cons next rest ih =>
    rw [maxBy_cons]
    have hboth : key first ≤ key (if key first < key next then next else first) ∧
        key next ≤ key (if key first < key next then next else first) := by
      split
      · rename_i hlt
        exact ⟨le_of_lt hlt, le_refl _⟩
      · rename_i hnot
        exact ⟨le_refl _, not_lt.mp hnot⟩
    rcases List.mem_cons.mp hx with rfl | hrest
    · exact le_trans hboth.1 (le_maxBy_first key _ rest)
    rcases List.mem_cons.mp hrest with rfl | hlater
    · exact le_trans hboth.2 (le_maxBy_first key _ rest)
    · exact ih (List.mem_cons_of_mem _ hlater)

/-- An item that no later one exceeds is the best. -/
theorem maxBy_of_le (h : ∀ x ∈ rest, key x ≤ key first) : maxBy key first rest = first := by
  induction rest with
  | nil => rfl
  | cons next rest ih =>
    rw [maxBy_cons, if_neg (not_lt.mpr (h next List.mem_cons_self))]
    exact ih fun x hx => h x (List.mem_cons_of_mem _ hx)

/-- All items before the best one are worse. -/
theorem maxBy_earliest (first : α) (rest : List α) : ∃ before after,
    first :: rest = before ++ maxBy key first rest :: after ∧
      ∀ x ∈ before, key x < key (maxBy key first rest) := by
  induction rest generalizing first with
  | nil => exact ⟨[], [], rfl, fun x hx => nomatch hx⟩
  | cons next rest ih =>
    rw [maxBy_cons]
    split
    · rename_i hlt
      obtain ⟨before, after, heq, hbefore⟩ := ih next
      refine ⟨first :: before, after, by rw [heq, List.cons_append], fun x hx => ?_⟩
      rcases List.mem_cons.mp hx with rfl | hx
      · exact lt_of_lt_of_le hlt (le_maxBy_first key next rest)
      · exact hbefore x hx
    · rename_i hnot
      obtain ⟨before, after, heq, hbefore⟩ := ih first
      cases before with
      | nil =>
        have hfirst : first = maxBy key first rest := (List.cons.inj heq).1
        refine ⟨[], next :: rest, by rw [← hfirst]; rfl, fun x hx => nomatch hx⟩
      | cons b before =>
        obtain ⟨rfl, hrest⟩ := List.cons.inj heq
        refine ⟨first :: next :: before, after, congrArg (first :: next :: ·) hrest, fun x hx => ?_⟩
        have hbest := hbefore first (List.mem_cons_self ..)
        rcases List.mem_cons.mp hx with rfl | hx
        · exact hbest
        rcases List.mem_cons.mp hx with rfl | hx
        · exact lt_of_le_of_lt (not_lt.mp hnot) hbest
        · exact hbefore x (List.mem_cons_of_mem _ hx)

theorem minBy_mem (first : α) (rest : List α) : minBy key first rest ∈ first :: rest :=
  maxBy_mem _ first rest

theorem minBy_le (hx : x ∈ first :: rest) : key (minBy key first rest) ≤ key x :=
  le_maxBy (fun x => OrderDual.toDual (key x)) hx

theorem minBy_earliest (first : α) (rest : List α) : ∃ before after,
    first :: rest = before ++ minBy key first rest :: after ∧
      ∀ x ∈ before, key (minBy key first rest) < key x :=
  maxBy_earliest (fun x => OrderDual.toDual (key x)) first rest

end best
