-- Suggestions for names (`discovery/validation.py`): the edit distance, computed row by row,
-- and the nearest candidate.
import Orchestra.Lib.Best
import Orchestra.Lib.Edits
import Orchestra.Values

open best edits

namespace orchestra.validation

/-- An index past the end of a list. -/
def indexError : Raised := ⟨"IndexError", "list index out of range", false⟩

/-- `row[j]` -/
def item (row : List Nat) (j : Nat) : Except Raised Nat :=
  match row[j]? with
  | some d => .ok d
  | none => .error indexError

/-- The loop over `b`, which fills the row of one character of `a`. -/
def fillRow (prev : List Nat) (ca : Char) (curr : List Nat) :
    List (Char × Nat) → Except Raised (List Nat)
  | [] => .ok curr
  | (cb, j) :: rest => do
    let cost := if ca = cb then 0 else 1
    let left ← item curr j
    let above ← item prev (j + 1)
    let diagonal ← item prev j
    fillRow prev ca (curr ++ [min (min (left + 1) (above + 1)) (diagonal + cost)]) rest

/-- The loop over `a`. -/
def fillTable (b : List Char) (prev : List Nat) : List (Char × Nat) → Except Raised (List Nat)
  | [] => .ok prev
  | (ca, i) :: rest => do
    let curr ← fillRow prev ca [i + 1] b.zipIdx
    fillTable b curr rest

/-- `_edit_distance`, of a text and one that is not longer. -/
def editDistanceLonger (a b : List Char) : Except Raised Nat :=
  if b.length = 0 then .ok a.length
  else do
    let prev ← fillTable b (List.range (b.length + 1)) a.zipIdx
    item prev b.length

/-- `_edit_distance` -/
def editDistance (a b : String) : Except Raised Nat :=
  if a.toList.length < b.toList.length then editDistanceLonger b.toList a.toList
  else editDistanceLonger a.toList b.toList

/-- The keys of the candidates. -/
def distances (name : String) : List String → Except Raised (List (String × Nat))
  | [] => .ok []
  | c :: rest => do
    let d ← editDistance name c
    let rest ← distances name rest
    pure ((c, d) :: rest)

/-- `did_you_mean` -/
def didYouMean (name : String) (candidates : List String) (maxDistance : Int := 3) :
    Except Raised (Option String) :=
  match candidates with
  | [] => .ok none
  | first :: rest => do
    let d ← editDistance name first
    let keyed ← distances name rest
    let nearest := (minBy (fun c : String × Nat => c.2) (first, d) keyed).1
    let d ← editDistance name nearest
    pure (if d ≤ maxDistance then some nearest else none)

/-! ## The distance -/

/-- The row of a longer prefix of `a` comes from the row before it. -/
theorem fillRow_row (xs : List Char) (ca : Char) (done rest : List Char) :
    fillRow (row xs (done ++ rest)) ca (row (ca :: xs) done) (rest.zipIdx done.length) =
      .ok (row (ca :: xs) (done ++ rest)) := by
  induction rest generalizing done with
  | nil => simp [fillRow]
  | cons cb rest ih =>
    have hleft : item (row (ca :: xs) done) done.length =
        .ok (distance (ca :: xs) done.reverse) := by
      unfold item
      rw [row_getElem? _ _ (Nat.le_refl _), List.take_length]
    have habove : item (row xs (done ++ cb :: rest)) (done.length + 1) =
        .ok (distance xs (cb :: done.reverse)) := by
      unfold item
      rw [row_getElem? _ _ (by simp)]
      simp [List.take_append, List.take_of_length_le (Nat.le_succ done.length)]
    have hdiagonal : item (row xs (done ++ cb :: rest)) done.length =
        .ok (distance xs done.reverse) := by
      unfold item
      rw [row_getElem? _ _ (by simp)]
      simp
    have hnext := ih (done ++ [cb])
    rw [List.append_assoc, List.singleton_append, List.length_append, List.length_singleton,
      row_concat, distance_cons_cons] at hnext
    simp only [List.zipIdx_cons, fillRow, hleft, habove, hdiagonal]
    exact hnext

/-- The table is filled from the row of the empty prefix on. -/
theorem fillTable_row (b done rest : List Char) :
    fillTable b (row done.reverse b) (rest.zipIdx done.length) =
      .ok (row (done ++ rest).reverse b) := by
  induction rest generalizing done with
  | nil => simp [fillTable]
  | cons ca rest ih =>
    have hstart : row (ca :: done.reverse) [] = [done.length + 1] := by
      simp [row, distance_nil_right]
    have hrow := fillRow_row done.reverse ca [] b
    rw [hstart] at hrow
    have hnext := ih (done ++ [ca])
    rw [List.reverse_append, List.append_assoc, List.length_append] at hnext
    simp only [List.zipIdx_cons, fillTable, List.nil_append, List.length_nil] at hrow ⊢
    rw [hrow]
    exact hnext

theorem editDistanceLonger_eq (a b : List Char) : editDistanceLonger a b = .ok (distance a b) := by
  unfold editDistanceLonger
  split
  · rename_i h
    rw [List.eq_nil_of_length_eq_zero h, distance_nil_right]
  · have hfirst : row [] b = List.range (b.length + 1) := by
      unfold row
      refine (List.map_congr_left fun j hj => ?_).trans (List.map_id _)
      have hlt := List.mem_range.mp hj
      simp only [distance_nil, List.length_reverse, List.length_take, id]
      omega
    have htable := fillTable_row b [] a
    rw [List.reverse_nil, hfirst] at htable
    simp only [List.length_nil, List.nil_append] at htable
    rw [htable]
    show item (row a.reverse b) b.length = _
    unfold item
    rw [row_getElem? _ _ (Nat.le_refl _), List.take_length, distance_reverse]

theorem editDistance_eq (a b : String) : editDistance a b = .ok (distance a.toList b.toList) := by
  unfold editDistance
  split
  · rw [editDistanceLonger_eq, distance_comm]
  · exact editDistanceLonger_eq _ _

/-- The distance is the least number of characters to put in, take out or change, and it is
a metric. No index is ever out of range. -/
theorem edit_distance_counts_edits (a b : String) :
    ∃ d, editDistance a b = .ok d ∧ IsLeast {n | Script a.toList b.toList n} d ∧
      editDistance b a = .ok d ∧ (d = 0 ↔ a = b) ∧
      ∀ c, ∃ e f, editDistance a c = .ok e ∧ editDistance c b = .ok f ∧ d ≤ e + f := by
  refine ⟨_, editDistance_eq a b, isLeast_distance _ _, ?_, ?_, fun c => ?_⟩
  · rw [editDistance_eq, distance_comm]
  · rw [distance_eq_zero, String.toList_inj]
  · exact ⟨_, _, editDistance_eq a c, editDistance_eq c b, distance_triangle _ _ _⟩

/-! ## The suggestion -/

theorem distances_eq (name : String) (candidates : List String) :
    distances name candidates =
      .ok (candidates.map (fun c => (c, distance name.toList c.toList))) := by
  induction candidates with
  | nil => rfl
  | cons c rest ih =>
    simp only [distances, editDistance_eq, ih, List.map_cons]
    rfl

/-- The key of the nearest candidate is its distance. -/
theorem nearest_eq (name first : String) (rest : List String) :
    minBy (fun c : String × Nat => c.2) (first, distance name.toList first.toList)
        (rest.map (fun c => (c, distance name.toList c.toList))) =
      (fun c : String => (c, distance name.toList c.toList))
        (minBy (fun c : String => distance name.toList c.toList) first rest) := by
  induction rest generalizing first with
  | nil => rfl
  | cons next rest ih =>
    have hnext := ih (if distance name.toList next.toList < distance name.toList first.toList
      then next else first)
    simp only [minBy, List.map_cons, maxBy_cons, OrderDual.toDual_lt_toDual] at hnext ⊢
    rw [← hnext]
    split <;> rfl

theorem didYouMean_cons (name first : String) (rest : List String) (maxDistance : Int) :
    let nearest := minBy (fun c : String => distance name.toList c.toList) first rest
    didYouMean name (first :: rest) maxDistance =
      .ok (if (distance name.toList nearest.toList : Int) ≤ maxDistance then some nearest
        else none) := by
  unfold didYouMean
  simp only [editDistance_eq, distances_eq, bind, Except.bind, nearest_eq]
  rfl

/-- A suggestion is the first of the nearest candidates. There is none exactly when no candidate
can be had by so few edits. -/
theorem suggestion_is_the_first_nearest (name : String) (candidates : List String)
    (maxDistance : Int) :
    (didYouMean name candidates maxDistance = .ok none ∧
        ∀ c ∈ candidates, ∀ n : Nat, Script name.toList c.toList n → maxDistance < n) ∨
      ∃ before nearest after d, didYouMean name candidates maxDistance = .ok (some nearest) ∧
        candidates = before ++ nearest :: after ∧
        Script name.toList nearest.toList d ∧ d ≤ maxDistance ∧
        (∀ c ∈ before, ∀ n, Script name.toList c.toList n → d < n) ∧
        ∀ c ∈ candidates, ∀ n, Script name.toList c.toList n → d ≤ n := by
  cases candidates with
  | nil => exact Or.inl ⟨rfl, fun c hc => nomatch hc⟩
  | cons first rest =>
    let key : String → Nat := fun c => distance name.toList c.toList
    have hleast : ∀ c ∈ first :: rest, ∀ n, Script name.toList c.toList n →
        key (minBy key first rest) ≤ n :=
      fun c hc n hn => Nat.le_trans (minBy_le key hc) hn.distance_le
    rw [didYouMean_cons]
    by_cases hd : (key (minBy key first rest) : Int) ≤ maxDistance
    · rw [if_pos hd]
      obtain ⟨before, after, heq, hbefore⟩ := minBy_earliest key first rest
      refine Or.inr ⟨before, _, after, _, rfl, heq, script_distance _ _, hd, fun c hc n hn => ?_,
        hleast⟩
      exact Nat.lt_of_lt_of_le (hbefore c hc) hn.distance_le
    · rw [if_neg hd]
      refine Or.inl ⟨rfl, fun c hc n hn => ?_⟩
      have := hleast c hc n hn
      omega

example : didYouMean "serch" ["write_file", "search", "seach"] = .ok (some "search") := by
  decide +kernel

end orchestra.validation
