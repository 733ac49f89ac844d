-- A text that comes in chunks is cut at a separator, and what follows the last separator is carried
-- over to the next chunk. The pieces are those of the whole text, wherever the chunks end.
import Orchestra.Lib.Text

open texts

namespace chunks

variable {c : Char} {p : List Char}

/-! ## All pieces of a text -/

theorem length_of_cutAt {l piece rest : List Char} (h : cutAt (c :: p) l = some (piece, rest)) :
    rest.length < l.length := by
  have hparts := congrArg List.length (firstCut_of_cutAt h).parts
  simp only [List.length_append, List.length_cons] at hparts
  omega

/-- The pieces before the separators `c :: p`, and what follows the last one. -/
def cutAll (c : Char) (p l : List Char) : List (List Char) × List Char :=
  match h : cutAt (c :: p) l with
  | none => ([], l)
  | some (piece, rest) =>
    have := length_of_cutAt h
    (piece :: (cutAll c p rest).1, (cutAll c p rest).2)
termination_by l.length

theorem cutAll_of_none {l : List Char} (h : cutAt (c :: p) l = none) :
    cutAll c p l = ([], l) := by
  rw [cutAll]
  split
  · rfl
  · rename_i hsome
    rw [h] at hsome
    cases hsome

theorem cutAll_of_some {l piece rest : List Char} (h : cutAt (c :: p) l = some (piece, rest)) :
    cutAll c p l = (piece :: (cutAll c p rest).1, (cutAll c p rest).2) := by
  rw [cutAll]
  split
  · rename_i hnone
    rw [h] at hnone
    cases hnone
  · rename_i hsome
    rw [h] at hsome
    cases hsome
    rfl

/-- Cuts come piece by piece: an induction over them. -/
theorem cut_induction {motive : List Char → Prop}
    (last : ∀ l, cutAt (c :: p) l = none → motive l)
    (piece : ∀ l first rest, cutAt (c :: p) l = some (first, rest) → motive rest → motive l)
    (l : List Char) : motive l := by
  induction hn : l.length using Nat.strongRecOn generalizing l with
  | _ n ih =>
    cases h : cutAt (c :: p) l with
    | none => exact last l h
    | some parts =>
      exact piece l parts.1 parts.2 h (ih _ (hn ▸ length_of_cutAt h) parts.2 rfl)

/-- What is left has no separator. -/
theorem cutAll_rest (l : List Char) : cutAll c p (cutAll c p l).2 = ([], (cutAll c p l).2) := by
  induction l using cut_induction (c := c) (p := p) with
  | last l h => rw [cutAll_of_none h, cutAll_of_none h]
  | piece l first rest h ih => rw [cutAll_of_some h, ih]

theorem cutAll_uncut {l : List Char} (h : ¬ c :: p <:+: l) : cutAll c p l = ([], l) := by
  refine cutAll_of_none ?_
  rw [← Option.not_isSome_iff_eq_none, isSome_cutAt_iff]
  exact h

/-- More text adds the pieces that it ends. -/
theorem cutAll_append (l m : List Char) :
    cutAll c p (l ++ m) =
      ((cutAll c p l).1 ++ (cutAll c p ((cutAll c p l).2 ++ m)).1,
        (cutAll c p ((cutAll c p l).2 ++ m)).2) := by
  induction l using cut_induction (c := c) (p := p) with
  | last l h => rw [cutAll_of_none h, List.nil_append]
  | piece l first rest h ih =>
    have hmore : cutAt (c :: p) (l ++ m) = some (first, rest ++ m) :=
      cutAt_eq_some_iff.mpr ((firstCut_of_cutAt h).append m)
    rw [cutAll_of_some hmore, cutAll_of_some h, ih]
    rfl

/-- The first pieces are the pieces of a start of the text, which ends with a separator. -/
theorem exists_start {l : List Char} {pieces : List (List Char)}
    (h : pieces <+: (cutAll c p l).1) :
    ∃ start rest, l = start ++ rest ∧ cutAll c p start = (pieces, []) := by
  have hempty : cutAll c p [] = ([], []) := cutAll_of_none rfl
  induction l using cut_induction (c := c) (p := p) generalizing pieces with
  | last l hcut =>
    rw [cutAll_of_none hcut, List.prefix_nil] at h
    exact ⟨[], l, rfl, h ▸ hempty⟩
  | piece l first rest hcut ih =>
    cases pieces with
    | nil => exact ⟨[], l, rfl, hempty⟩
    | cons piece pieces =>
      rw [cutAll_of_some hcut, List.cons_prefix_cons] at h
      obtain ⟨rfl, hpieces⟩ := h
      obtain ⟨start, rest', rfl, hstart⟩ := ih hpieces
      have hfirst := firstCut_of_cutAt hcut
      refine ⟨piece ++ c :: p ++ start, rest', by rw [hfirst.parts]; simp, ?_⟩
      have hcutStart : cutAt (c :: p) (piece ++ c :: p ++ start) = some (piece, start) := by
        refine cutAt_eq_some_iff.mpr ⟨rfl, fun b a hb => ?_⟩
        refine hfirst.first b (a ++ rest') ?_
        rw [hfirst.parts, ← List.append_assoc, hb, List.append_assoc]
      rw [cutAll_of_some hcutStart, hstart]

end chunks
