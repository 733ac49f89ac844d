-- Edits of a list: an item is put in, taken out or changed. The least number of edits
-- that turn one list into another is a metric, and the table of its prefixes gives it.
import Mathlib.Data.List.Basic
import Mathlib.Order.Bounds.Basic
import Mathlib.Order.MinMax

namespace edits

variable {α : Type}

/-! ## Scripts -/

/-- `n` edits turn the first list into the second one. -/
inductive Script : List α → List α → Nat → Prop
  | nil : Script [] [] 0
  | keep {xs ys : List α} {n : Nat} (x : α) (h : Script xs ys n) : Script (x :: xs) (x :: ys) n
  | change {xs ys : List α} {n : Nat} (x y : α) (h : Script xs ys n) :
    Script (x :: xs) (y :: ys) (n + 1)
  | insert {xs ys : List α} {n : Nat} (y : α) (h : Script xs ys n) : Script xs (y :: ys) (n + 1)
  | remove {xs ys : List α} {n : Nat} (x : α) (h : Script xs ys n) : Script (x :: xs) ys (n + 1)

variable {xs ys zs : List α} {m n : Nat}

theorem Script.refl (xs : List α) : Script xs xs 0 := by
  induction xs with
  | nil => exact .nil
  | cons x xs ih => exact .keep x ih

/-- Each edit can be taken back. -/
theorem Script.symm (h : Script xs ys n) : Script ys xs n := by
  induction h with
  | nil => exact .nil
  | keep x h ih => exact .keep x ih
  | change x y h ih => exact .change y x ih
  | insert y h ih => exact .remove y ih
  | remove x h ih => exact .insert x ih

theorem Script.eq_of_zero (h : Script xs ys 0) : xs = ys := by
  generalize hn : 0 = n at h
  induction h with
  | nil => rfl
  | keep x h ih => rw [ih hn]
  | _ => omega

/-- What a script does up to the first item `y` that it comes to. -/
theorem Script.upTo {y : α} {P : List α → Nat → Prop} (h : Script (y :: ys) zs n)
    (hkeep : ∀ zs n, Script ys zs n → P (y :: zs) n)
    (hchange : ∀ z zs n, Script ys zs n → P (z :: zs) (n + 1))
    (hremove : ∀ zs n, Script ys zs n → P zs (n + 1))
    (hinsert : ∀ z zs n, P zs n → P (z :: zs) (n + 1)) : P zs n := by
  generalize hl : y :: ys = l at h
  induction h with
  | nil => cases hl
  | keep x h ih =>
    cases hl
    exact hkeep _ _ h
  | change x z h ih =>
    cases hl
    exact hchange z _ _ h
  | insert z h ih => exact hinsert z _ _ (ih hl)
  | remove x h ih =>
    cases hl
    exact hremove _ _ h

/-- One script after the other needs no more edits than both. -/
theorem Script.trans (h : Script xs ys m) (h' : Script ys zs n) :
    ∃ k ≤ m + n, Script xs zs k := by
  induction h generalizing zs n with
  | nil => exact ⟨n, by omega, h'⟩
  | remove x h ih =>
    obtain ⟨k, hk, hs⟩ := ih h'
    exact ⟨k + 1, by omega, .remove x hs⟩
  | @keep xs ys m x h ih =>
    refine h'.upTo (P := fun zs n => ∃ k ≤ m + n, Script (x :: xs) zs k) (fun zs n h' => ?_)
      (fun z zs n h' => ?_) (fun zs n h' => ?_) (fun z zs n h' => ?_)
    · obtain ⟨k, hk, hs⟩ := ih h'
      exact ⟨k, hk, .keep x hs⟩
    · obtain ⟨k, hk, hs⟩ := ih h'
      exact ⟨k + 1, by omega, .change x z hs⟩
    · obtain ⟨k, hk, hs⟩ := ih h'
      exact ⟨k + 1, by omega, .remove x hs⟩
    · obtain ⟨k, hk, hs⟩ := h'
      exact ⟨k + 1, by omega, .insert z hs⟩
  | @change xs ys m x y h ih =>
    refine h'.upTo (P := fun zs n => ∃ k ≤ m + 1 + n, Script (x :: xs) zs k) (fun zs n h' => ?_)
      (fun z zs n h' => ?_) (fun zs n h' => ?_) (fun z zs n h' => ?_)
    · obtain ⟨k, hk, hs⟩ := ih h'
      exact ⟨k + 1, by omega, .change x y hs⟩
    · obtain ⟨k, hk, hs⟩ := ih h'
      exact ⟨k + 1, by omega, .change x z hs⟩
    · obtain ⟨k, hk, hs⟩ := ih h'
      exact ⟨k + 1, by omega, .remove x hs⟩
    · obtain ⟨k, hk, hs⟩ := h'
      exact ⟨k + 1, by omega, .insert z hs⟩
  | @insert xs ys m y h ih =>
    refine h'.upTo (P := fun zs n => ∃ k ≤ m + 1 + n, Script xs zs k) (fun zs n h' => ?_)
      (fun z zs n h' => ?_) (fun zs n h' => ?_) (fun z zs n h' => ?_)
    · obtain ⟨k, hk, hs⟩ := ih h'
      exact ⟨k + 1, by omega, .insert y hs⟩
    · obtain ⟨k, hk, hs⟩ := ih h'
      exact ⟨k + 1, by omega, .insert z hs⟩
    · obtain ⟨k, hk, hs⟩ := ih h'
      exact ⟨k, by omega, hs⟩
    · obtain ⟨k, hk, hs⟩ := h'
      exact ⟨k + 1, by omega, .insert z hs⟩

/-- Edits of the first lists, then edits of what follows them. -/
theorem Script.append {us vs : List α} (h : Script xs ys m) (h' : Script us vs n) :
    Script (xs ++ us) (ys ++ vs) (m + n) := by
  induction h with
  | nil => simpa using h'
  | keep x h ih => exact .keep x ih
  | change x y h ih =>
    rw [Nat.add_right_comm]
    exact .change x y ih
  | insert y h ih =>
    rw [Nat.add_right_comm]
    exact .insert y ih
  | remove x h ih =>
    rw [Nat.add_right_comm]
    exact .remove x ih

/-- The lists may as well be edited from their ends. -/
theorem Script.reverse (h : Script xs ys n) : Script xs.reverse ys.reverse n := by
  induction h with
  | nil => exact .nil
  | keep x h ih =>
    simpa using ih.append (.keep x .nil)
  | change x y h ih =>
    simpa using ih.append (.change x y .nil)
  | insert y h ih =>
    simpa using ih.append (.insert y .nil)
  | remove x h ih =>
    simpa using ih.append (.remove x .nil)

theorem script_length (ys : List α) : Script [] ys ys.length := by
  induction ys with
  | nil => exact .nil
  | cons y ys ih => exact .insert y ih

/-! ## The distance -/

variable [DecidableEq α]

/-- The price of putting `y` in the place of `x`. -/
def cost (x y : α) : Nat := if x = y then 0 else 1

/-- The distances from `x :: xs`, when `prev` has those from `xs`. -/
def step (prev : List α → Nat) (x : α) : List α → Nat
  | [] => prev [] + 1
  | y :: ys => min (min (step prev x ys + 1) (prev (y :: ys) + 1)) (prev ys + cost x y)

/-- The least number of edits. -/
def distance : List α → List α → Nat
  | [] => List.length
  | x :: xs => step (distance xs) x

@[simp] theorem distance_nil (ys : List α) : distance [] ys = ys.length := rfl

@[simp] theorem distance_cons_nil (x : α) (xs : List α) : distance (x :: xs) [] = distance xs [] + 1 :=
  rfl

theorem distance_cons_cons (x y : α) (xs ys : List α) :
    distance (x :: xs) (y :: ys) =
      min (min (distance (x :: xs) ys + 1) (distance xs (y :: ys) + 1))
        (distance xs ys + cost x y) := rfl

/-- There is a script of that length. -/
theorem script_distance (xs ys : List α) : Script xs ys (distance xs ys) := by
  induction xs generalizing ys with
  | nil => exact script_length ys
  | cons x xs ihx =>
    induction ys with
    | nil => exact .remove x (ihx [])
    | cons y ys ihy =>
      rw [distance_cons_cons]
      have hinsert := Script.insert y ihy
      have hremove := Script.remove x (ihx (y :: ys))
      have hlast : Script (x :: xs) (y :: ys) (distance xs ys + cost x y) := by
        unfold cost
        split
        · subst y
          exact .keep x (ihx ys)
        · exact .change x y (ihx ys)
      rcases min_choice (min (distance (x :: xs) ys + 1) (distance xs (y :: ys) + 1))
        (distance xs ys + cost x y) with h | h
      · rw [h]
        rcases min_choice (distance (x :: xs) ys + 1) (distance xs (y :: ys) + 1) with h | h
        · rwa [h]
        · rwa [h]
      · rwa [h]

/-- One more item makes a difference of at most one. -/
theorem distance_le_cons (x : α) (xs ys : List α) : distance (x :: xs) ys ≤ distance xs ys + 1 := by
  cases ys with
  | nil => simp
  | cons y ys =>
    rw [distance_cons_cons]
    omega

theorem distance_le_insert (y : α) (xs ys : List α) : distance xs (y :: ys) ≤ distance xs ys + 1 := by
  cases xs with
  | nil => simp
  | cons x xs =>
    rw [distance_cons_cons]
    omega

/-- No script is shorter. -/
theorem Script.distance_le (h : Script xs ys n) : distance xs ys ≤ n := by
  induction h with
  | nil => simp
  | keep x h ih =>
    rw [distance_cons_cons]
    simp only [cost, if_true]
    omega
  | change x y h ih =>
    have hcost : cost x y ≤ 1 := by
      unfold cost
      split <;> omega
    rw [distance_cons_cons]
    omega
  | @insert xs ys n y h ih =>
    have := distance_le_insert y xs ys
    omega
  | @remove xs ys n x h ih =>
    have := distance_le_cons x xs ys
    omega

theorem isLeast_distance (xs ys : List α) : IsLeast {n | Script xs ys n} (distance xs ys) :=
  ⟨script_distance xs ys, fun _ h => h.distance_le⟩

theorem distance_comm (xs ys : List α) : distance xs ys = distance ys xs :=
  Nat.le_antisymm (script_distance ys xs).symm.distance_le (script_distance xs ys).symm.distance_le

theorem distance_reverse (xs ys : List α) : distance xs.reverse ys.reverse = distance xs ys := by
  refine Nat.le_antisymm (script_distance xs ys).reverse.distance_le ?_
  have h := (script_distance xs.reverse ys.reverse).reverse.distance_le
  simpa using h

theorem distance_eq_zero : distance xs ys = 0 ↔ xs = ys := by
  constructor
  · intro h
    have hs := script_distance xs ys
    rw [h] at hs
    exact hs.eq_of_zero
  · rintro rfl
    have := (Script.refl xs).distance_le
    omega

theorem distance_triangle (xs ys zs : List α) :
    distance xs zs ≤ distance xs ys + distance ys zs := by
  obtain ⟨k, hk, hs⟩ := (script_distance xs ys).trans (script_distance ys zs)
  exact Nat.le_trans hs.distance_le hk

theorem distance_nil_right (xs : List α) : distance xs [] = xs.length := by
  rw [distance_comm, distance_nil]

/-! ## The table -/

/-- A row of the table: the distances from `xs` to the prefixes of `ys`. Both are read from
their ends, so a prefix is what is left of the reversed list. -/
def row (xs ys : List α) : List Nat :=
  (List.range (ys.length + 1)).map (fun j => distance xs (ys.take j).reverse)

theorem row_getElem? (xs ys : List α) {j : Nat} (hj : j ≤ ys.length) :
    (row xs ys)[j]? = some (distance xs (ys.take j).reverse) := by
  unfold row
  rw [List.getElem?_map, List.getElem?_range (by omega)]
  rfl

theorem row_concat (xs ys : List α) (y : α) :
    row xs (ys ++ [y]) = row xs ys ++ [distance xs (y :: ys.reverse)] := by
  unfold row
  rw [List.length_append, List.length_singleton, List.range_succ, List.map_append]
  congr 1
  · refine List.map_congr_left fun j hj => ?_
    have hlt := List.mem_range.mp hj
    rw [List.take_append_of_le_length (by omega)]
  · simp [List.take_of_length_le]

end edits
