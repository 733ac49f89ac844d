-- The latest of a list of rows: the one with the greatest number, and of those
-- with one number the last. `ORDER BY number DESC, id DESC LIMIT 1` finds it.
import Mathlib.Data.List.Induction

namespace latests

variable {α β : Type} (number : α → Int)

/-- The better of two rows, of which the second comes later. -/
def later (best : Option α) (r : α) : Option α :=
  match best with
  | none => some r
  | some b => if number b ≤ number r then some r else some b

def latest (rows : List α) : Option α := rows.foldl (later number) none

theorem latest_snoc (rows : List α) (r : α) :
    latest number (rows ++ [r]) = later number (latest number rows) r := by
  unfold latest
  rw [List.foldl_append]
  rfl

variable {number}

theorem latest_eq_none_iff {rows : List α} : latest number rows = none ↔ rows = [] := by
  rcases List.eq_nil_or_concat rows with rfl | ⟨rows', r, rfl⟩
  · simp [latest]
  · rw [List.concat_eq_append, latest_snoc]
    unfold later
    split
    · simp
    · split <;> simp

/-- The latest row is one of the rows, and no row has a greater number. -/
theorem latest_spec {rows : List α} {b : α} (h : latest number rows = some b) :
    b ∈ rows ∧ ∀ r ∈ rows, number r ≤ number b := by
  induction rows using List.reverseRecOn generalizing b with
  | nil => cases h
  | append_singleton rows last ih =>
    rw [latest_snoc] at h
    rcases hbest : latest number rows with _ | best
    · rw [hbest] at h
      cases h
      rw [latest_eq_none_iff] at hbest
      subst hbest
      simp
    · rw [hbest] at h
      obtain ⟨hmem, hmax⟩ := ih hbest
      simp only [later] at h
      split at h
      · rename_i hle
        cases h
        refine ⟨by simp, fun r hr => ?_⟩
        rcases List.mem_append.mp hr with hr | hr
        · exact Int.le_trans (hmax r hr) hle
        · obtain rfl := List.mem_singleton.mp hr
          exact Int.le_refl _
      · rename_i hlt
        cases h
        refine ⟨List.mem_append_left _ hmem, fun r hr => ?_⟩
        rcases List.mem_append.mp hr with hr | hr
        · exact hmax r hr
        · rw [List.mem_singleton.mp hr]
          omega

/-- The last row is the latest just when no other has a greater number. -/
theorem latest_snoc_iff (rows : List α) (r : α) :
    latest number (rows ++ [r]) = some r ↔ ∀ d ∈ rows, number d ≤ number r := by
  constructor
  · exact fun h d hd => (latest_spec h).2 d (List.mem_append_left _ hd)
  · intro h
    rw [latest_snoc]
    rcases hbest : latest number rows with _ | best
    · rfl
    · have hle := h best (latest_spec hbest).1
      simp only [later, hle, if_true]

/-- A change of the rows that leaves their numbers changes the latest one with them. -/
theorem latest_map {number' : β → Int} {f : α → β} {rows : List α}
    (h : ∀ r ∈ rows, number' (f r) = number r) :
    latest number' (rows.map f) = (latest number rows).map f := by
  induction rows using List.reverseRecOn with
  | nil => rfl
  | append_singleton rows last ih =>
    have hrows : ∀ r ∈ rows, number' (f r) = number r :=
      fun r hr => h r (List.mem_append_left _ hr)
    have hlast : number' (f last) = number last := h last (by simp)
    rw [List.map_append, List.map_singleton, latest_snoc, latest_snoc, ih hrows]
    rcases hbest : latest number rows with _ | best
    · rfl
    · have hnumber := hrows best (latest_spec hbest).1
      simp only [Option.map_some, later, hnumber, hlast]
      split <;> rfl

end latests
