-- A list that grows at its end, with links from each entry to another one by its place. An entry
-- is changed in place, in what is not its key.
import Mathlib.Data.List.Basic
import Mathlib.Logic.Relation

namespace arenas

variable {α κ : Type}

/-! ## Links -/

section links

variable {parent : α → Option Nat} {l m : List α} {i j : Nat}

/-- The entry at `i` links to the one at `j`. -/
def Link (parent : α → Option Nat) (l : List α) (i j : Nat) : Prop :=
  ∃ x, l[i]? = some x ∧ parent x = some j

/-- One or more links lead from `i` to `j`. -/
def Under (parent : α → Option Nat) (l : List α) : Nat → Nat → Prop :=
  Relation.TransGen (Link parent l)

theorem getElem?_of_prefix (h : l <+: m) {x : α} (hx : l[i]? = some x) : m[i]? = some x := by
  obtain ⟨t, rfl⟩ := h
  rw [List.getElem?_append_left (List.getElem?_eq_some_iff.mp hx).1]
  exact hx

theorem Link.mono (h : l <+: m) (hlink : Link parent l i j) : Link parent m i j := by
  obtain ⟨x, hx, hparent⟩ := hlink
  exact ⟨x, getElem?_of_prefix h hx, hparent⟩

theorem Under.mono (h : l <+: m) (hunder : Under parent l i j) : Under parent m i j :=
  Relation.TransGen.mono (fun _ _ hlink => Link.mono h hlink) _ _ hunder

end links

/-! ## Entries of a kind -/

/-- The entries of a kind, with their places. -/
def picks (p : α → Bool) (l : List α) : List (α × Nat) := l.zipIdx.filter fun e => p e.1

theorem picks_concat (p : α → Bool) (l : List α) (x : α) :
    picks p (l ++ [x]) = picks p l ++ if p x then [(x, l.length)] else [] := by
  unfold picks
  rw [List.zipIdx_append, List.filter_append]
  cases hp : p x <;> simp [hp]

/-! ## Changes in place -/

/-- A change of an entry that keeps its key keeps all keys. -/
theorem map_modify (key : α → κ) {f : α → α} (hf : ∀ x, key (f x) = key x) (l : List α)
    (i : Nat) : (l.modify i f).map key = l.map key := by
  apply List.ext_getElem?
  intro j
  rw [List.getElem?_map, List.getElem?_map, List.getElem?_modify]
  cases l[j]? with
  | none => rfl
  | some x =>
    by_cases hj : i = j
    · simp [hj, hf]
    · simp [hj]

theorem modify_last (l : List α) (x : α) (f : α → α) :
    (l ++ [x]).modify l.length f = l ++ [f x] := by
  rw [List.modify_eq_set_getElem?]
  simp

end arenas
