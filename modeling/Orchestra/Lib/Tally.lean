-- Sums by key: a dictionary that grows with each share has for each key the sum of its shares,
-- and over all keys the sum of all shares.
import Mathlib.Algebra.BigOperators.Group.List.Basic
import Orchestra.Lib.Dict

open dicts

namespace tallies

section shares

variable {κ M : Type} [DecidableEq κ] [AddCommMonoid M]

/-- A share for a key, which starts at zero where it is new. -/
def grow (d : Dict κ M) (k : κ) (x : M) : Dict κ M := d.set k ((d.get? k).getD 0 + x)

def tally (l : List (κ × M)) : Dict κ M := l.foldl (fun d e => grow d e.1 e.2) .empty

theorem tally_snoc (l : List (κ × M)) (e : κ × M) : tally (l ++ [e]) = grow (tally l) e.1 e.2 := by
  simp [tally]

/-- The sum of the shares of one key. -/
def sumOf (k : κ) (l : List (κ × M)) : M := ((l.filter (fun e => e.1 = k)).map (·.2)).sum

theorem sumOf_snoc (k : κ) (l : List (κ × M)) (e : κ × M) :
    sumOf k (l ++ [e]) = if e.1 = k then sumOf k l + e.2 else sumOf k l := by
  unfold sumOf
  by_cases hk : e.1 = k
  · simp [hk]
  · simp [hk]

theorem getD_tally (l : List (κ × M)) (k : κ) : ((tally l).get? k).getD 0 = sumOf k l := by
  induction l using List.reverseRecOn with
  | nil => rfl
  | append_singleton l e ih =>
    rw [tally_snoc, sumOf_snoc, grow, Dict.get?_set]
    by_cases hk : e.1 = k
    · subst hk
      simp [ih]
    · simp [hk, ih]

theorem mem_keys_tally (l : List (κ × M)) (k : κ) : k ∈ (tally l).keys ↔ ∃ e ∈ l, e.1 = k := by
  induction l using List.reverseRecOn with
  | nil => simp [tally, Dict.keys, Dict.empty]
  | append_singleton l e ih =>
    rw [tally_snoc, grow, Dict.mem_keys_set, ih]
    simp only [List.mem_append, List.mem_singleton, or_and_right, exists_or, exists_eq_left]
    rw [or_comm, eq_comm]

/-- An entry that gains `x` by a weight, from `initial` where its key is new, makes the sum of the
weights gain `x`. -/
theorem sum_setEntries {α : Type} (weight : α → M) {initial value : α} {x : M} {k : κ}
    (hinitial : weight initial = 0) (es : List (κ × α))
    (hvalue : weight value = weight ((es.lookup k).getD initial) + x) :
    ((setEntries k value es).map (fun e => weight e.2)).sum =
      (es.map (fun e => weight e.2)).sum + x := by
  induction es with
  | nil =>
    rw [List.lookup_nil, Option.getD_none, hinitial, zero_add] at hvalue
    simp [setEntries, hvalue]
  | cons e rest ih =>
    obtain ⟨j, old⟩ := e
    by_cases hj : j = k
    · subst hj
      rw [List.lookup_cons_self, Option.getD_some] at hvalue
      simp only [setEntries, if_true, List.map_cons, List.sum_cons, hvalue]
      exact add_right_comm _ _ _
    · have hne : (k == j) = false := by simpa using Ne.symm hj
      rw [List.lookup_cons, hne] at hvalue
      simp only [setEntries, hj, if_false, List.map_cons, List.sum_cons, ih hvalue, add_assoc]

theorem sum_grow (d : Dict κ M) (k : κ) (x : M) :
    ((grow d k x).entries.map (·.2)).sum = (d.entries.map (·.2)).sum + x :=
  sum_setEntries id rfl d.entries rfl

theorem sum_tally (l : List (κ × M)) :
    ((tally l).entries.map (·.2)).sum = (l.map (·.2)).sum := by
  induction l using List.reverseRecOn with
  | nil => rfl
  | append_singleton l e ih => rw [tally_snoc, sum_grow, ih, List.map_append, List.sum_append,
      List.map_singleton, List.sum_singleton]

end shares

/-! ## Lists by key -/

/-- What is listed key by key is all that has one of the keys. -/
theorem flatMap_filter_perm {κ α : Type} [DecidableEq κ] (f : α → κ) (l : List α) {ks : List κ}
    (hnodup : ks.Nodup) :
    (ks.flatMap fun k => l.filter (fun a => f a = k)).Perm (l.filter (fun a => f a ∈ ks)) := by
  induction ks with
  | nil => simp
  | cons k ks ih =>
    rw [List.nodup_cons] at hnodup
    rw [List.flatMap_cons]
    refine ((ih hnodup.2).append_left _).trans ?_
    have hsplit := List.filter_append_perm (fun a => decide (f a = k))
      (l.filter (fun a => f a ∈ k :: ks))
    rw [List.filter_filter, List.filter_filter] at hsplit
    refine (List.Perm.of_eq ?_).trans hsplit
    congr 1
    · exact List.filter_congr fun a _ => by simp +contextual
    · refine List.filter_congr fun a _ => ?_
      by_cases ha : f a = k
      · simp [ha, hnodup.1]
      · simp [ha]

end tallies
