-- Windows of time: how many of the times of a log lie between two ends. The log may hold
-- entries of many keys, each with its own times.
import Mathlib.Data.List.Basic
import Mathlib.Order.Lattice

namespace windows

variable {K : Type} [LinearOrder K] {a b c : K} {times : List K}

/-- How many of the times lie between `a` and `b`, both ends included. -/
def countIn (a b : K) (times : List K) : Nat := times.countP fun t => a ≤ t ∧ t ≤ b

@[simp] theorem countIn_nil (a b : K) : countIn a b [] = 0 := rfl

theorem countIn_append (a b : K) (times later : List K) :
    countIn a b (times ++ later) = countIn a b times + countIn a b later := List.countP_append

/-- Of a single time. -/
theorem countIn_singleton (a b t : K) : countIn a b [t] = if a ≤ t ∧ t ≤ b then 1 else 0 := by
  unfold countIn
  rw [List.countP_singleton]
  simp only [decide_eq_true_eq]

theorem countIn_snoc_of_mem {t : K} (ha : a ≤ t) (hb : t ≤ b) (times : List K) :
    countIn a b (times ++ [t]) = countIn a b times + 1 := by
  rw [countIn_append, countIn_singleton, if_pos ⟨ha, hb⟩]

theorem countIn_snoc_of_not {t : K} (h : ¬ (a ≤ t ∧ t ≤ b)) (times : List K) :
    countIn a b (times ++ [t]) = countIn a b times := by
  rw [countIn_append, countIn_singleton, if_neg h, Nat.add_zero]

/-- What is over before the window begins is not in it. -/
theorem countIn_of_before (h : ∀ t ∈ times, t < a) : countIn a b times = 0 := by
  unfold countIn
  rw [List.countP_eq_zero]
  intro t ht
  simpa using fun hat : a ≤ t => absurd (h t ht) (not_lt.mpr hat)

/-- Where the window ends does not matter once all is over. -/
theorem countIn_of_after (hb : ∀ t ∈ times, t ≤ b) (hc : ∀ t ∈ times, t ≤ c) :
    countIn a b times = countIn a c times := by
  unfold countIn
  refine List.countP_congr fun t ht => ?_
  simp [hb t ht, hc t ht]

/-- A window that all of the times lie in. -/
theorem countIn_of_forall (ha : ∀ t ∈ times, a ≤ t) (hb : ∀ t ∈ times, t ≤ b) :
    countIn a b times = times.length := by
  unfold countIn
  rw [List.countP_eq_length]
  intro t ht
  simpa using ⟨ha t ht, hb t ht⟩

/-- A window that begins earlier holds no less. -/
theorem countIn_mono (h : c ≤ a) (b : K) (times : List K) :
    countIn a b times ≤ countIn c b times := by
  unfold countIn
  refine List.countP_mono_left fun t _ hin => ?_
  simp only [decide_eq_true_eq] at hin ⊢
  exact ⟨le_trans h hin.1, hin.2⟩

/-- Of a log in order, what is left of it once its old entries are dropped is not old. -/
theorem not_of_mem_dropWhile (old : K → Bool) (hold : ∀ s t, s ≤ t → old t = true → old s = true)
    (horder : times.Pairwise (· ≤ ·)) : ∀ t ∈ times.dropWhile old, old t = false := by
  induction times with
  | nil => simp
  | cons s times ih =>
    rw [List.pairwise_cons] at horder
    rw [List.dropWhile_cons]
    split
    · exact ih horder.2
    · rename_i hs
      intro t ht
      rcases List.mem_cons.mp ht with rfl | hlater
      · simpa using hs
      · by_contra ht
        exact hs (hold s t (horder.1 t hlater) (by simpa using ht))

/-! ## The times of a key -/

structure Entry (κ K : Type) where
  key : κ
  time : K

section keys

variable {κ : Type} [DecidableEq κ] {key : κ} {e : Entry κ K} {log : List (Entry κ K)}

/-- When the entries of a key came. -/
def timesOf (key : κ) (log : List (Entry κ K)) : List K :=
  (log.filter (·.key = key)).map (·.time)

omit [LinearOrder K] in
theorem timesOf_append (key : κ) (log later : List (Entry κ K)) :
    timesOf key (log ++ later) = timesOf key log ++ timesOf key later := by
  unfold timesOf
  rw [List.filter_append, List.map_append]

omit [LinearOrder K] in
theorem timesOf_snoc_self (h : e.key = key) (log : List (Entry κ K)) :
    timesOf key (log ++ [e]) = timesOf key log ++ [e.time] := by
  rw [timesOf_append]
  simp [timesOf, h]

omit [LinearOrder K] in
theorem timesOf_snoc_other (h : e.key ≠ key) (log : List (Entry κ K)) :
    timesOf key (log ++ [e]) = timesOf key log := by
  rw [timesOf_append]
  simp [timesOf, h]

/-- A log in order is in order for each key. -/
theorem pairwise_timesOf (horder : (log.map (·.time)).Pairwise (· ≤ ·)) (key : κ) :
    (timesOf key log).Pairwise (· ≤ ·) :=
  horder.sublist (List.filter_sublist.map _)

/-- What came before the last entry of a key. -/
theorem le_of_pairwise_snoc (h : e.key = key)
    (horder : (timesOf key (log ++ [e])).Pairwise (· ≤ ·)) : ∀ t ∈ timesOf key log, t ≤ e.time := by
  rw [timesOf_snoc_self h, List.pairwise_append] at horder
  exact fun t ht => horder.2.2 t ht e.time (List.mem_singleton_self _)

theorem pairwise_of_snoc (horder : (timesOf key (log ++ [e])).Pairwise (· ≤ ·)) :
    (timesOf key log).Pairwise (· ≤ ·) := by
  rw [timesOf_append, List.pairwise_append] at horder
  exact horder.1

end keys

end windows
