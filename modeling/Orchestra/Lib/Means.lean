-- The mean of a list, and how it lies among the means of its parts.
import Mathlib.Algebra.Order.Field.Basic
import Mathlib.Algebra.Order.BigOperators.Group.List
import Mathlib.Data.List.Perm.Basic
import Mathlib.Tactic.FieldSimp
import Mathlib.Tactic.Linarith

namespace means

variable {α κ K : Type} [DecidableEq κ] [Field K] (f : α → K) (key : α → κ)

/-- The mean of the values of a list. -/
def mean (l : List α) : K := (l.map f).sum / l.length

/-- The items with the key of `x`. -/
def partOf (x : α) (l : List α) : List α := l.filter fun y => key y = key x

variable {f key} {l m : List α} {x : α}

theorem mean_perm (h : l.Perm m) : mean f l = mean f m := by
  unfold mean
  rw [(h.map f).sum_eq, h.length_eq]

@[simp] theorem mean_singleton (f : α → K) (x : α) : mean f [x] = f x := by
  simp [mean]

theorem mean_neg (f : α → K) (l : List α) : mean (fun x => -f x) l = -mean f l := by
  have hsum : (l.map fun x => -f x).sum = -(l.map f).sum := by
    induction l with
    | nil => simp
    | cons x l ih => rw [List.map_cons, List.map_cons, List.sum_cons, List.sum_cons, ih, neg_add]
  unfold mean
  rw [hsum, neg_div]

theorem sum_filter_add (p : α → Bool) (l : List α) :
    ((l.filter p).map f).sum + ((l.filter fun x => !p x).map f).sum = (l.map f).sum := by
  induction l with
  | nil => simp
  | cons x l ih =>
    rw [List.map_cons, List.sum_cons, ← ih]
    cases hp : p x with
    | true =>
      simp only [List.filter_cons, hp, if_true, Bool.not_true, Bool.false_eq_true, if_false,
        List.map_cons, List.sum_cons]
      exact add_assoc _ _ _
    | false =>
      simp only [List.filter_cons, hp, Bool.false_eq_true, if_false, Bool.not_false, if_true,
        List.map_cons, List.sum_cons]
      exact add_left_comm _ _ _

variable [LinearOrder K] [IsStrictOrderedRing K]

theorem length_pos (hl : l ≠ []) : 0 < (l.length : K) := by
  exact_mod_cast List.length_pos_iff.mpr hl

theorem mean_le_iff (hl : l ≠ []) {a : K} : mean f l ≤ a ↔ (l.map f).sum ≤ a * l.length := by
  unfold mean
  exact div_le_iff₀ (length_pos hl)

theorem mean_lt_iff (hl : l ≠ []) {a : K} : mean f l < a ↔ (l.map f).sum < a * l.length := by
  unfold mean
  exact div_lt_iff₀ (length_pos hl)

theorem mean_nonneg (h : ∀ x ∈ l, 0 ≤ f x) : 0 ≤ mean f l := by
  refine div_nonneg (List.sum_nonneg ?_) (Nat.cast_nonneg _)
  intro a ha
  obtain ⟨x, hx, rfl⟩ := List.mem_map.mp ha
  exact h x hx

/-- Values that do not fall, item by item, do not lower the mean. -/
theorem mean_mono (h : List.Forall₂ (fun x y => f x ≤ f y) l m) : mean f l ≤ mean f m := by
  have hsum : (l.map f).sum ≤ (m.map f).sum := by
    induction h with
    | nil => exact le_refl _
    | cons hhead _ ih =>
      rw [List.map_cons, List.map_cons, List.sum_cons, List.sum_cons]
      exact add_le_add hhead ih
  unfold mean
  rw [h.length_eq]
  exact div_le_div_of_nonneg_right hsum (Nat.cast_nonneg _)

/-- A new item does not lower the mean exactly when it is not below it. -/
theorem mean_le_mean_cons_iff (hl : l ≠ []) : mean f l ≤ mean f (x :: l) ↔ mean f l ≤ f x := by
  have hn : 0 < (l.length : K) := length_pos hl
  have hm : 0 < (l.length : K) + 1 := by linarith
  unfold mean
  rw [List.map_cons, List.sum_cons, List.length_cons, Nat.cast_succ, div_le_div_iff₀ hn hm,
    div_le_iff₀ hn]
  constructor
  · intro h
    linarith
  · intro h
    linarith

/-- A new item is not above the new mean exactly when it is not above the old one. -/
theorem head_le_mean_cons_iff (hl : l ≠ []) : f x ≤ mean f (x :: l) ↔ f x ≤ mean f l := by
  have hn : 0 < (l.length : K) := length_pos hl
  have hm : 0 < (l.length : K) + 1 := by linarith
  unfold mean
  rw [List.map_cons, List.sum_cons, List.length_cons, Nat.cast_succ, le_div_iff₀ hm,
    le_div_iff₀ hn]
  constructor
  · intro h
    linarith
  · intro h
    linarith

/-! ## Parts -/

theorem ne_nil_partOf (hx : x ∈ l) : partOf key x l ≠ [] :=
  List.ne_nil_of_mem (List.mem_filter.mpr ⟨hx, by simp⟩)

theorem length_filter_add (p : α → Bool) (l : List α) :
    (l.filter p).length + (l.filter fun x => !p x).length = l.length := by
  simpa using (List.length_eq_length_filter_add p (l := l)).symm

/-- The parts of what has another key are parts of the whole. -/
theorem partOf_rest {y : α} (hy : key y ≠ key x) :
    partOf key y (l.filter fun z => !decide (key z = key x)) = partOf key y l := by
  unfold partOf
  rw [List.filter_filter]
  refine List.filter_congr fun z _ => ?_
  by_cases hz : key z = key y
  · simp [hz, hy]
  · simp [hz]

/-- A list whose parts are all below a value is below it. By induction on the length: the part of
the first item is taken out. -/
theorem sum_lt_of_parts (hl : l ≠ []) {a : K}
    (h : ∀ x ∈ l, mean f (partOf key x l) < a) : (l.map f).sum < a * l.length := by
  induction hn : l.length using Nat.strong_induction_on generalizing l with
  | _ n ih =>
    obtain ⟨x, hx⟩ := List.exists_mem_of_ne_nil l hl
    have hpart := (mean_lt_iff (ne_nil_partOf hx)).mp (h x hx)
    have hsum := sum_filter_add (f := f) (fun y => decide (key y = key x)) l
    have hlength := length_filter_add (fun y => decide (key y = key x)) l
    change ((partOf key x l).map f).sum + _ = _ at hsum
    change (partOf key x l).length + _ = _ at hlength
    generalize hrest : (l.filter fun y => !decide (key y = key x)) = rest at hsum hlength
    have hcast : ((partOf key x l).length : K) + rest.length = n := by
      rw [← hn, ← hlength]
      push_cast
      rfl
    by_cases hempty : rest = []
    · subst hempty
      simp only [List.map_nil, List.sum_nil, add_zero, List.length_nil, Nat.cast_zero] at hsum hcast
      rw [← hsum, ← hcast]
      exact hpart
    · have hne : partOf key x l ≠ [] := ne_nil_partOf hx
      have hpos := List.length_pos_iff.mpr hne
      have hbelow : (rest.map f).sum < a * rest.length := by
        refine ih rest.length (by omega) hempty (fun y hy => ?_) rfl
        rw [← hrest] at hy ⊢
        obtain ⟨hmem, hkey⟩ := List.mem_filter.mp hy
        rw [partOf_rest (by simpa using hkey)]
        exact h y hmem
      rw [← hsum, ← hcast]
      linarith

/-- Some part has a mean that is not below the one of the whole. -/
theorem exists_part_ge (f : α → K) (key : α → κ) (hl : l ≠ []) :
    ∃ x ∈ l, mean f l ≤ mean f (partOf key x l) := by
  by_contra hall
  push Not at hall
  exact absurd ((mean_lt_iff hl).mpr (sum_lt_of_parts hl hall)) (lt_irrefl _)

/-- Some part has a mean that is not above the one of the whole. -/
theorem exists_part_le (f : α → K) (key : α → κ) (hl : l ≠ []) :
    ∃ x ∈ l, mean f (partOf key x l) ≤ mean f l := by
  obtain ⟨x, hx, hle⟩ := exists_part_ge (fun x => -f x) key hl
  rw [mean_neg, mean_neg, neg_le_neg_iff] at hle
  exact ⟨x, hx, hle⟩

end means
