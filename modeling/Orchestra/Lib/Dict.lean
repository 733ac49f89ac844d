-- A dictionary that remembers the order of its keys, as `dict` in Python
-- does: a new key goes to the end, and a write to an old key keeps its place.
import Mathlib.Data.List.Forall2
import Mathlib.Data.List.Induction
import Mathlib.Data.List.Nodup
import Mathlib.Data.List.Sort

namespace dicts

variable {κ α : Type}

/-! ## The dictionary -/

/-- The entries of a dictionary, oldest key first. No key stands twice. -/
structure Dict (κ α : Type) where
  entries : List (κ × α)
  nodup : (entries.map Prod.fst).Nodup
deriving DecidableEq

namespace Dict

def empty : Dict κ α := ⟨[], List.nodup_nil⟩

def keys (d : Dict κ α) : List κ := d.entries.map Prod.fst

/-- The same keys, each with the value that `f` gives it. -/
def mapValues (d : Dict κ α) (f : κ → α → α) : Dict κ α where
  entries := d.entries.map (fun e => (e.1, f e.1 e.2))
  nodup := by
    have : (d.entries.map (fun e => (e.1, f e.1 e.2))).map Prod.fst = d.entries.map Prod.fst := by
      simp
    rw [this]; exact d.nodup

theorem ext_entries {d e : Dict κ α} (h : d.entries = e.entries) : d = e := by
  cases d; cases e; simp only at h; subst h; rfl

theorem keys_mapValues (d : Dict κ α) (f : κ → α → α) : (d.mapValues f).keys = d.keys := by
  simp [keys, mapValues]

end Dict

variable [DecidableEq κ]

/-! ## Writes on the list of entries -/

/-- Write `v` at `k`: in place when the key is there, else at the end. -/
def setEntries (k : κ) (v : α) : List (κ × α) → List (κ × α)
  | [] => [(k, v)]
  | (j, w) :: rest => if j = k then (k, v) :: rest else (j, w) :: setEntries k v rest

theorem keys_setEntries (k : κ) (v : α) (es : List (κ × α)) :
    (setEntries k v es).map Prod.fst =
      if k ∈ es.map Prod.fst then es.map Prod.fst else es.map Prod.fst ++ [k] := by
  induction es with
  | nil => simp [setEntries]
  | cons e rest ih =>
    obtain ⟨j, w⟩ := e
    by_cases hj : j = k
    · subst hj; simp [setEntries]
    · have hk : k ≠ j := fun h => hj h.symm
      simp only [setEntries, hj, if_false, List.map_cons, ih, List.mem_cons, hk, false_or]
      split <;> simp

theorem lookup_setEntries (k j : κ) (v : α) (es : List (κ × α)) :
    (setEntries k v es).lookup j = if k = j then some v else es.lookup j := by
  induction es with
  | nil =>
    by_cases h : k = j
    · subst h; simp [setEntries]
    · have : (j == k) = false := by simpa using fun e => h e.symm
      simp [setEntries, List.lookup_cons, this, h]
  | cons e rest ih =>
    obtain ⟨i, w⟩ := e
    by_cases hi : i = k
    · subst hi
      by_cases hj : i = j
      · subst hj; simp [setEntries]
      · have : (j == i) = false := by simpa using fun e => hj e.symm
        simp [setEntries, List.lookup_cons, this, hj]
    · simp only [setEntries, hi, if_false]
      by_cases hj : j = i
      · subst hj
        have : ¬ k = j := fun e => hi e.symm
        simp [this]
      · have : (j == i) = false := by simpa using hj
        simp only [List.lookup_cons, this, ih]

namespace Dict

def get? (d : Dict κ α) (k : κ) : Option α := d.entries.lookup k

def set (d : Dict κ α) (k : κ) (v : α) : Dict κ α where
  entries := setEntries k v d.entries
  nodup := by
    rw [keys_setEntries]
    split
    · exact d.nodup
    · rename_i hk
      exact List.nodup_append.mpr ⟨d.nodup, List.nodup_singleton k, by
        intro a ha b hb hab
        rw [List.mem_singleton] at hb
        exact hk (by rw [← hb, ← hab]; exact ha)⟩

/-- Write the entries of a list one after the other. -/
def setAll (d : Dict κ α) (es : List (κ × α)) : Dict κ α :=
  es.foldl (fun d e => d.set e.1 e.2) d

/-- `d.update(e)` in Python. -/
def update (d e : Dict κ α) : Dict κ α := d.setAll e.entries

/-- A dictionary literal: a later entry wins over an earlier one. -/
def ofList (es : List (κ × α)) : Dict κ α := empty.setAll es

/-! ## Reads after writes -/

@[simp] theorem update_empty (d : Dict κ α) : d.update empty = d := rfl

@[simp] theorem get?_empty (k : κ) : (empty : Dict κ α).get? k = none := rfl

theorem get?_set (d : Dict κ α) (k j : κ) (v : α) :
    (d.set k v).get? j = if k = j then some v else d.get? j :=
  lookup_setEntries k j v d.entries

@[simp] theorem get?_set_self (d : Dict κ α) (k : κ) (v : α) : (d.set k v).get? k = some v := by
  simp [get?_set]

theorem get?_set_ne (d : Dict κ α) {k j : κ} (v : α) (h : k ≠ j) :
    (d.set k v).get? j = d.get? j := by
  simp [get?_set, h]

theorem get?_eq_none_iff (d : Dict κ α) (k : κ) : d.get? k = none ↔ k ∉ d.keys := by
  obtain ⟨es, hn⟩ := d
  simp only [get?, keys]
  clear hn
  induction es with
  | nil => simp
  | cons e rest ih =>
    obtain ⟨j, w⟩ := e
    by_cases hj : k = j
    · subst hj; simp
    · have : (k == j) = false := by simpa using hj
      simp [List.lookup_cons, this, ih, hj]

theorem mem_keys_iff (d : Dict κ α) (k : κ) : k ∈ d.keys ↔ ∃ v, d.get? k = some v := by
  rw [← Option.ne_none_iff_exists', Ne, get?_eq_none_iff, not_not]

theorem mem_entries_iff (d : Dict κ α) (k : κ) (v : α) :
    (k, v) ∈ d.entries ↔ d.get? k = some v := by
  obtain ⟨es, hn⟩ := d
  simp only [get?]
  induction es with
  | nil => simp
  | cons e rest ih =>
    obtain ⟨j, w⟩ := e
    simp only [List.map_cons, List.nodup_cons] at hn
    by_cases hj : k = j
    · subst hj
      have hnot : (k, v) ∉ rest := fun h => hn.1 (List.mem_map.mpr ⟨_, h, rfl⟩)
      simp [hnot, eq_comm]
    · have : (k == j) = false := by simpa using hj
      simp [List.lookup_cons, this, ih hn.2, hj]

/-! ## Removal -/

/-- Drop the entry of a key, where there is one. -/
def erase (d : Dict κ α) (k : κ) : Dict κ α where
  entries := d.entries.filter (fun e => e.1 ≠ k)
  nodup := d.nodup.sublist (List.filter_sublist.map _)

/-- Drop the oldest entry. -/
def tail (d : Dict κ α) : Dict κ α where
  entries := d.entries.tail
  nodup := d.nodup.sublist ((List.tail_sublist d.entries).map _)

def size (d : Dict κ α) : Nat := d.entries.length

theorem get?_erase (d : Dict κ α) (k j : κ) :
    (d.erase k).get? j = if k = j then none else d.get? j := by
  apply Option.ext
  intro v
  rw [← mem_entries_iff]
  by_cases h : k = j
  · subst h
    simp [erase]
  · have hne : ¬ j = k := fun e => h e.symm
    simp [erase, mem_entries_iff, h, hne]

theorem filter_setEntries (k j : κ) (v : α) (es : List (κ × α)) :
    (setEntries j v es).filter (fun e => e.1 ≠ k) =
      if j = k then es.filter (fun e => e.1 ≠ k)
      else setEntries j v (es.filter (fun e => e.1 ≠ k)) := by
  induction es with
  | nil => by_cases hj : j = k <;> simp [setEntries, hj]
  | cons e rest ih =>
    obtain ⟨i, w⟩ := e
    by_cases hj : j = k
    · subst hj
      rw [if_pos rfl] at ih ⊢
      by_cases hi : i = j
      · simp [setEntries, hi]
      · simpa [setEntries, hi] using ih
    · rw [if_neg hj] at ih ⊢
      by_cases hi : i = j
      · subst hi
        simp [setEntries, hj]
      · by_cases hik : i = k
        · subst hik
          simpa [setEntries, hi] using ih
        · simpa [setEntries, hi, hik] using ih

/-- What is written under a key goes when the key goes. -/
theorem erase_set_self (d : Dict κ α) (k : κ) (v : α) : (d.set k v).erase k = d.erase k := by
  apply ext_entries
  have h := filter_setEntries k k v d.entries
  rwa [if_pos rfl] at h

theorem erase_set_ne (d : Dict κ α) {k j : κ} (v : α) (h : j ≠ k) :
    (d.set j v).erase k = (d.erase k).set j v := by
  apply ext_entries
  have hfilter := filter_setEntries k j v d.entries
  rwa [if_neg h] at hfilter

/-- Two dictionaries that differ in one entry do so after the same writes. -/
theorem erase_update {d e : Dict κ α} {k : κ} (h : d.erase k = e.erase k) (f : Dict κ α) :
    (d.update f).erase k = (e.update f).erase k := by
  unfold update setAll
  generalize f.entries = es
  induction es generalizing d e with
  | nil => exact h
  | cons x rest ih =>
    rw [List.foldl_cons, List.foldl_cons]
    apply ih
    by_cases hx : x.1 = k
    · rw [hx, erase_set_self, erase_set_self, h]
    · rw [erase_set_ne _ _ hx, erase_set_ne _ _ hx, h]

theorem get?_cons {d : Dict κ α} {k : κ} {v : α} {rest : List (κ × α)}
    (h : d.entries = (k, v) :: rest) : d.get? k = some v := by
  rw [← mem_entries_iff, h]
  exact List.mem_cons_self ..

theorem get?_tail {d : Dict κ α} {k : κ} {v : α} {rest : List (κ × α)}
    (h : d.entries = (k, v) :: rest) (j : κ) :
    d.tail.get? j = if k = j then none else d.get? j := by
  have hnodup := d.nodup
  rw [h, List.map_cons, List.nodup_cons] at hnodup
  apply Option.ext
  intro w
  rw [← mem_entries_iff]
  by_cases hk : k = j
  · subst hk
    have hnot : (k, w) ∉ rest := fun hm => hnodup.1 (List.mem_map.mpr ⟨_, hm, rfl⟩)
    simp [tail, h, hnot]
  · have hne : ¬ j = k := fun e => hk e.symm
    rw [if_neg hk, ← mem_entries_iff, h]
    simp [tail, h, hne]

omit [DecidableEq κ] in
theorem size_tail (d : Dict κ α) : d.tail.size = d.size - 1 := by
  simp [size, tail]

theorem length_setEntries (k : κ) (v : α) (es : List (κ × α)) :
    (setEntries k v es).length =
      if k ∈ es.map Prod.fst then es.length else es.length + 1 := by
  have h := congrArg List.length (keys_setEntries k v es)
  rw [List.length_map] at h
  rw [h]
  split <;> simp

theorem keys_set_of_mem {d : Dict κ α} {k : κ} (h : k ∈ d.keys) (v : α) :
    (d.set k v).keys = d.keys := by
  unfold keys at h
  have hkeys := keys_setEntries k v d.entries
  rwa [if_pos h] at hkeys

theorem setEntries_setEntries (k : κ) (v w : α) (es : List (κ × α)) :
    setEntries k w (setEntries k v es) = setEntries k w es := by
  induction es with
  | nil => simp [setEntries]
  | cons e rest ih =>
    obtain ⟨j, u⟩ := e
    by_cases hj : j = k
    · simp [setEntries, hj]
    · simp [setEntries, hj, ih]

/-- A later write at the same key replaces the earlier one. -/
theorem set_set (d : Dict κ α) (k : κ) (v w : α) : (d.set k v).set k w = d.set k w :=
  ext_entries (setEntries_setEntries k v w d.entries)

theorem mem_keys_set (d : Dict κ α) (k j : κ) (v : α) :
    j ∈ (d.set k v).keys ↔ j = k ∨ j ∈ d.keys := by
  have hkeys : (d.set k v).keys = if k ∈ d.keys then d.keys else d.keys ++ [k] :=
    keys_setEntries k v d.entries
  rw [hkeys]
  split
  · rename_i hk
    refine ⟨Or.inr, ?_⟩
    rintro (rfl | hj)
    · exact hk
    · exact hj
  · rw [List.mem_append, List.mem_singleton, or_comm]

theorem size_set_of_mem {d : Dict κ α} {k : κ} (h : k ∈ d.keys) (v : α) :
    (d.set k v).size = d.size := by
  unfold keys at h
  have hlength := length_setEntries k v d.entries
  rwa [if_pos h] at hlength

theorem size_set_of_not_mem {d : Dict κ α} {k : κ} (h : k ∉ d.keys) (v : α) :
    (d.set k v).size = d.size + 1 := by
  unfold keys at h
  have hlength := length_setEntries k v d.entries
  rwa [if_neg h] at hlength

theorem entries_set_of_not_mem {d : Dict κ α} {k : κ} (h : k ∉ d.keys) (v : α) :
    (d.set k v).entries = d.entries ++ [(k, v)] := by
  obtain ⟨es, hn⟩ := d
  simp only [set, keys] at *
  clear hn
  induction es with
  | nil => rfl
  | cons e rest ih =>
    simp only [List.map_cons, List.mem_cons, not_or] at h
    have hne : ¬ e.1 = k := fun he => h.1 he.symm
    simp [setEntries, hne, ih h.2]

theorem size_erase_of_mem {d : Dict κ α} {k : κ} (h : k ∈ d.keys) :
    (d.erase k).size + 1 = d.size := by
  obtain ⟨es, hn⟩ := d
  simp only [erase, size, keys] at *
  induction es with
  | nil => simp at h
  | cons e rest ih =>
    simp only [List.map_cons, List.nodup_cons] at hn
    by_cases he : e.1 = k
    · have hrest : rest.filter (fun e => decide (e.1 ≠ k)) = rest := by
        rw [List.filter_eq_self]
        intro x hx
        rw [decide_eq_true_eq]
        intro hxk
        rw [he, ← hxk] at hn
        exact hn.1 (List.mem_map_of_mem hx)
      have hdrop : decide (e.1 ≠ k) = false := by simpa using he
      rw [List.filter_cons, hdrop, hrest]
      rfl
    · have hmem : k ∈ rest.map Prod.fst := by
        rcases List.mem_cons.mp h with heq | hmem
        · exact absurd heq.symm he
        · exact hmem
      have hkeep : decide (e.1 ≠ k) = true := by simpa using he
      rw [List.filter_cons, hkeep]
      simp only [if_true, List.length_cons]
      rw [ih hn.2 hmem]

theorem size_erase_le (d : Dict κ α) (k : κ) : (d.erase k).size ≤ d.size :=
  List.length_filter_le _ _

theorem keys_set_of_not_mem {d : Dict κ α} {k : κ} (h : k ∉ d.keys) (v : α) :
    (d.set k v).keys = d.keys ++ [k] := by
  unfold keys
  rw [entries_set_of_not_mem h, List.map_append]
  rfl

omit [DecidableEq κ] in
/-- The oldest key and the others. -/
theorem keys_tail {d : Dict κ α} {k : κ} {v : α} {rest : List (κ × α)}
    (h : d.entries = (k, v) :: rest) : d.keys = k :: d.tail.keys := by
  simp [keys, tail, h]

theorem keys_erase (d : Dict κ α) (k : κ) : (d.erase k).keys = d.keys.filter (· ≠ k) := by
  unfold keys erase
  rw [List.filter_map]
  rfl

/-- The keys, with one of them at the front. -/
theorem perm_keys_erase {d : Dict κ α} {k : κ} (h : k ∈ d.keys) :
    d.keys.Perm (k :: (d.erase k).keys) := by
  have herase : (d.erase k).keys = d.keys.erase k := by
    have hnodup : d.keys.Nodup := d.nodup
    rw [keys_erase, hnodup.erase_eq_filter]
    exact List.filter_congr (fun j _ => by simp [bne, beq_eq_decide])
  rw [herase]
  exact List.perm_cons_erase h

theorem keys_erase_of_not_mem {d : Dict κ α} {k : κ} (h : k ∉ d.keys) :
    (d.erase k).keys = d.keys := by
  rw [keys_erase, List.filter_eq_self]
  intro j hj
  rw [decide_eq_true_eq]
  rintro rfl
  exact h hj

/-! ## Equality -/

theorem lookup_of_nodup_cons {j k : κ} {w : α} {rest : List (κ × α)} (hk : k ∈ rest.map Prod.fst)
    (hn : j ∉ rest.map Prod.fst) : ((j, w) :: rest).lookup k = rest.lookup k := by
  have : (k == j) = false := by
    rw [beq_eq_false_iff_ne]
    exact fun e => hn (e ▸ hk)
  simp [List.lookup_cons, this]

/-- Two dictionaries are one when they have the same keys in the same order
and read the same at each key. -/
theorem ext_of_keys {d e : Dict κ α} (hk : d.keys = e.keys) (hg : ∀ k, d.get? k = e.get? k) :
    d = e := by
  obtain ⟨es, hn⟩ := d
  obtain ⟨fs, hm⟩ := e
  apply ext_entries
  simp only [keys, get?] at *
  induction es generalizing fs with
  | nil =>
    cases fs with
    | nil => rfl
    | cons f rest => simp at hk
  | cons a rest ih =>
    cases fs with
    | nil => simp at hk
    | cons b rest' =>
      obtain ⟨j, w⟩ := a
      obtain ⟨i, x⟩ := b
      simp only [List.map_cons, List.cons.injEq, List.nodup_cons] at hk hn hm
      obtain ⟨rfl, hk⟩ := hk
      have hw : w = x := by
        have := hg j
        simpa using this
      subst hw
      have hrest : ∀ k, rest.lookup k = rest'.lookup k := by
        intro k
        by_cases hmem : k ∈ rest.map Prod.fst
        · have := hg k
          rwa [lookup_of_nodup_cons hmem hn.1, lookup_of_nodup_cons (hk ▸ hmem) hm.1] at this
        · have h1 : rest.lookup k = none := (get?_eq_none_iff ⟨rest, hn.2⟩ k).mpr hmem
          have hmem' : k ∉ rest'.map Prod.fst := hk ▸ hmem
          have h2 : rest'.lookup k = none := (get?_eq_none_iff ⟨rest', hm.2⟩ k).mpr hmem'
          rw [h1, h2]
      exact congrArg ((j, w) :: ·) (ih hn.2 rest' hm.2 hk hrest)

theorem get?_mapValues (d : Dict κ α) (f : κ → α → α) (k : κ) :
    (d.mapValues f).get? k = (d.get? k).map (f k) := by
  obtain ⟨es, hn⟩ := d
  simp only [get?, mapValues]
  clear hn
  induction es with
  | nil => rfl
  | cons e rest ih =>
    obtain ⟨j, w⟩ := e
    by_cases hj : k = j
    · subst hj; simp
    · have : (k == j) = false := by simpa using hj
      simp [List.lookup_cons, this, ih]

/-! ## Updates -/

/-- A later write wins, and what is not written stays. -/
theorem get?_setAll (d : Dict κ α) {es : List (κ × α)} (hn : (es.map Prod.fst).Nodup) (k : κ) :
    (d.setAll es).get? k = (es.lookup k).or (d.get? k) := by
  unfold setAll
  induction es generalizing d with
  | nil => rfl
  | cons e rest ih =>
    obtain ⟨j, w⟩ := e
    rw [List.map_cons, List.nodup_cons] at hn
    rw [List.foldl_cons, ih _ hn.2, get?_set]
    by_cases hj : j = k
    · subst hj
      have hnone : rest.lookup j = none := (get?_eq_none_iff ⟨rest, hn.2⟩ j).mpr hn.1
      simp [hnone]
    · have hbeq : (k == j) = false := by simpa using fun h => hj h.symm
      rw [if_neg hj, List.lookup_cons, hbeq]

/-- Of the writes at one key the last one stays. -/
theorem get?_setAll_reverse (d : Dict κ α) (es : List (κ × α)) (k : κ) :
    (d.setAll es).get? k = (es.reverse.lookup k).or (d.get? k) := by
  unfold setAll
  induction es generalizing d with
  | nil => rfl
  | cons e rest ih =>
    obtain ⟨j, w⟩ := e
    rw [List.foldl_cons, ih, get?_set, List.reverse_cons, List.lookup_append]
    by_cases hj : j = k
    · subst hj
      rcases rest.reverse.lookup j with _ | v <;> simp
    · have hbeq : (k == j) = false := by simpa using fun h => hj h.symm
      rw [if_neg hj, List.lookup_cons, hbeq]
      simp

theorem get?_ofList (es : List (κ × α)) (k : κ) : (ofList es).get? k = es.reverse.lookup k := by
  unfold ofList
  rw [get?_setAll_reverse, get?_empty, Option.or_none]

/-- The value at a key in the list read from its end is the one of the last entry there. -/
theorem lookup_reverse_iff (es : List (κ × α)) (k : κ) (v : α) :
    es.reverse.lookup k = some v ↔
      ∃ before after, es = before ++ (k, v) :: after ∧ ∀ e ∈ after, e.1 ≠ k := by
  induction es using List.reverseRecOn with
  | nil => simp
  | append_singleton es last ih =>
    obtain ⟨j, w⟩ := last
    rw [List.reverse_append, List.reverse_singleton, List.singleton_append, List.lookup_cons]
    by_cases hj : k = j
    · subst hj
      rw [beq_self_eq_true]
      constructor
      · intro h
        obtain rfl := Option.some.inj h
        exact ⟨es, [], rfl, by simp⟩
      · rintro ⟨before, after, heq, hafter⟩
        rcases List.eq_nil_or_concat after with rfl | ⟨more, last, rfl⟩
        · obtain ⟨-, hlast⟩ := List.append_inj' heq rfl
          cases hlast
          rfl
        · rw [List.concat_eq_append, ← List.cons_append, ← List.append_assoc] at heq
          obtain ⟨-, hlast⟩ := List.append_inj' heq rfl
          cases hlast
          exact absurd rfl (hafter (k, w) (by simp))
    · have hbeq : (k == j) = false := by simpa using hj
      rw [hbeq]
      simp only [ih]
      constructor
      · rintro ⟨before, after, rfl, hafter⟩
        refine ⟨before, after ++ [(j, w)], by simp, ?_⟩
        intro e he
        rcases List.mem_append.mp he with he | he
        · exact hafter e he
        · rw [List.mem_singleton.mp he]
          exact fun heq => hj heq.symm
      · rintro ⟨before, after, heq, hafter⟩
        rcases List.eq_nil_or_concat after with rfl | ⟨more, last, rfl⟩
        · obtain ⟨-, hlast⟩ := List.append_inj' heq rfl
          cases hlast
          exact absurd rfl hj
        · rw [List.concat_eq_append, ← List.cons_append, ← List.append_assoc] at heq
          obtain ⟨hes, -⟩ := List.append_inj' heq rfl
          exact ⟨before, more, hes, fun e he => hafter e (by simp [he])⟩

theorem get?_ofList_iff (es : List (κ × α)) (k : κ) (v : α) : (ofList es).get? k = some v ↔
    ∃ before after, es = before ++ (k, v) :: after ∧ ∀ e ∈ after, e.1 ≠ k := by
  rw [get?_ofList, lookup_reverse_iff]

/-- New keys go to the end. -/
theorem keys_setAll (d : Dict κ α) {es : List (κ × α)} (hn : (es.map Prod.fst).Nodup) :
    (d.setAll es).keys = d.keys ++ (es.map Prod.fst).filter (fun k => decide (k ∉ d.keys)) := by
  unfold setAll
  induction es generalizing d with
  | nil => simp
  | cons e rest ih =>
    obtain ⟨j, w⟩ := e
    rw [List.map_cons, List.nodup_cons] at hn
    rw [List.foldl_cons, ih _ hn.2]
    have hkeys : (d.set j w).keys = if j ∈ d.keys then d.keys else d.keys ++ [j] :=
      keys_setEntries j w d.entries
    by_cases hj : j ∈ d.keys
    · rw [if_pos hj] at hkeys
      simp [hkeys, hj]
    · rw [if_neg hj] at hkeys
      have hsame : (rest.map Prod.fst).filter (fun k => decide (k ∉ d.keys ++ [j])) =
          (rest.map Prod.fst).filter (fun k => decide (k ∉ d.keys)) := by
        apply List.filter_congr
        intro k hk
        have hne : k ≠ j := fun h => hn.1 (h ▸ hk)
        simp [hne]
      rw [hkeys, hsame]
      simp [hj]

/-- No key goes, and none changes its place. -/
theorem keys_before_setAll (d : Dict κ α) (es : List (κ × α)) : d.keys <+: (d.setAll es).keys := by
  unfold setAll
  induction es generalizing d with
  | nil => exact List.prefix_refl _
  | cons e rest ih =>
    have hkeys : (d.set e.1 e.2).keys = if e.1 ∈ d.keys then d.keys else d.keys ++ [e.1] :=
      keys_setEntries e.1 e.2 d.entries
    have hfirst : d.keys <+: (d.set e.1 e.2).keys := by
      rw [hkeys]
      split
      · exact List.prefix_refl _
      · exact List.prefix_append _ _
    rw [List.foldl_cons]
    exact hfirst.trans (ih _)

/-- A dictionary that goes on from another one takes its place in an update. -/
theorem update_of_keys {d e : Dict κ α} (h : d.keys <+: e.keys) : d.update e = e := by
  obtain ⟨rest, hrest⟩ := h
  have hnodup : (d.keys ++ rest).Nodup := hrest ▸ e.nodup
  obtain ⟨-, -, hapart⟩ := List.nodup_append.mp hnodup
  apply ext_of_keys
  · have hkeys : e.entries.map Prod.fst = d.keys ++ rest := hrest.symm
    unfold update
    rw [keys_setAll d e.nodup, hkeys, List.filter_append]
    have hold : d.keys.filter (fun k => decide (k ∉ d.keys)) = [] := by
      rw [List.filter_eq_nil_iff]
      intro k hk
      simpa using hk
    have hnew : rest.filter (fun k => decide (k ∉ d.keys)) = rest := by
      rw [List.filter_eq_self]
      intro k hk
      rw [decide_eq_true_eq]
      exact fun hmem => hapart k hmem k hk rfl
    rw [hold, hnew]
    exact hrest
  · intro k
    unfold update
    rw [get?_setAll d e.nodup]
    have hlookup : e.entries.lookup k = e.get? k := rfl
    rw [hlookup]
    rcases hk : e.get? k with _ | v
    · have hnot : k ∉ d.keys := by
        intro hmem
        have hthere : k ∈ e.keys := hrest ▸ List.mem_append_left _ hmem
        obtain ⟨v, hv⟩ := (mem_keys_iff e k).mp hthere
        rw [hk] at hv
        cases hv
      rw [(get?_eq_none_iff d k).mpr hnot]
      rfl
    · rfl

@[simp] theorem ofList_entries (d : Dict κ α) : ofList d.entries = d :=
  (update_of_keys List.nil_prefix : empty.update d = d)

/-! ## Values through a function -/

section map

variable {β : Type}

omit [DecidableEq κ] in
theorem keys_through (f : α → β) (es : List (κ × α)) :
    (es.map fun e => (e.1, f e.2)).map Prod.fst = es.map Prod.fst := by
  rw [List.map_map]
  rfl

/-- The same keys with values of another type. -/
def map (f : α → β) (d : Dict κ α) : Dict κ β where
  entries := d.entries.map fun e => (e.1, f e.2)
  nodup := by
    rw [keys_through]
    exact d.nodup

omit [DecidableEq κ] in
@[simp] theorem size_map (f : α → β) (d : Dict κ α) : (d.map f).size = d.size := List.length_map _

@[simp] theorem get?_map (f : α → β) (d : Dict κ α) (k : κ) :
    (d.map f).get? k = (d.get? k).map f := by
  obtain ⟨es, hn⟩ := d
  simp only [get?, map]
  clear hn
  induction es with
  | nil => rfl
  | cons e rest ih =>
    rcases e with ⟨j, v⟩
    simp only [List.map_cons, List.lookup_cons]
    split
    · rfl
    · exact ih

end map

end Dict

/-! ## Entries in another order -/

/-- The same entries in another order hold the same. -/
theorem lookup_perm {xs ys : List (κ × α)} (hperm : xs.Perm ys)
    (hnodup : (ys.map Prod.fst).Nodup) (key : κ) : xs.lookup key = ys.lookup key := by
  have hx : (xs.map Prod.fst).Nodup := (hperm.map Prod.fst).nodup_iff.mpr hnodup
  have hmem : ∀ v, xs.lookup key = some v ↔ ys.lookup key = some v := by
    intro v
    have h1 := (⟨xs, hx⟩ : Dict κ α).mem_entries_iff key v
    have h2 := (⟨ys, hnodup⟩ : Dict κ α).mem_entries_iff key v
    exact h1.symm.trans (hperm.mem_iff.trans h2)
  exact Option.ext hmem

theorem perm_of_lookup {xs ys : List (κ × α)} (hx : (xs.map Prod.fst).Nodup)
    (hy : (ys.map Prod.fst).Nodup) (h : ∀ key, xs.lookup key = ys.lookup key) : xs.Perm ys := by
  refine (List.perm_ext_iff_of_nodup (List.Nodup.of_map _ hx) (List.Nodup.of_map _ hy)).mpr ?_
  rintro ⟨key, v⟩
  have h1 := (⟨xs, hx⟩ : Dict κ α).mem_entries_iff key v
  have h2 := (⟨ys, hy⟩ : Dict κ α).mem_entries_iff key v
  unfold Dict.get? at h1 h2
  rw [h1, h2, h key]

/-- The entries in the order of their keys. -/
def sortByKey {α : Type} (es : List (String × α)) : List (String × α) :=
  es.insertionSort (fun a b => a.1 ≤ b.1)

/-- Entries with different keys have one sorted order. -/
theorem sortByKey_eq_iff {xs ys : List (String × α)} (hx : (xs.map Prod.fst).Nodup)
    (hy : (ys.map Prod.fst).Nodup) :
    sortByKey xs = sortByKey ys ↔ ∀ key, xs.lookup key = ys.lookup key := by
  have hxs : (sortByKey xs).Perm xs := List.perm_insertionSort _ xs
  have hys : (sortByKey ys).Perm ys := List.perm_insertionSort _ ys
  constructor
  · intro h key
    rw [← lookup_perm hxs hx, h, lookup_perm hys hy]
  · intro h
    have hperm := hxs.trans ((perm_of_lookup hx hy h).trans hys.symm)
    have htotal : Std.Total (fun a b : String × α => a.1 ≤ b.1) :=
      ⟨fun a b => String.le_total a.1 b.1⟩
    have htrans : IsTrans _ (fun a b : String × α => a.1 ≤ b.1) :=
      ⟨fun a b c => String.le_trans⟩
    refine hperm.eq_of_pairwise ?_ (List.pairwise_insertionSort _ xs)
      (List.pairwise_insertionSort _ ys)
    rintro ⟨k, v⟩ ⟨l, w⟩ hv hw hkl hlk
    obtain rfl : k = l := String.le_antisymm hkl hlk
    have hvx := ((⟨xs, hx⟩ : Dict String α).mem_entries_iff k v).mp (hxs.subset hv)
    have hwy := ((⟨ys, hy⟩ : Dict String α).mem_entries_iff k w).mp (hys.subset hw)
    have hsame : some v = some w := by
      rw [← hvx, ← hwy]
      exact h k
    rw [Option.some.inj hsame]

/-! ## Entries one by one -/

section related

variable {β : Type} {Q : κ × α → κ × β → Prop}

omit [DecidableEq κ] in
theorem keys_of_forall₂ (hkey : ∀ x y, Q x y → y.1 = x.1) {xs : List (κ × α)}
    {ys : List (κ × β)} (h : List.Forall₂ Q xs ys) : ys.map Prod.fst = xs.map Prod.fst := by
  induction h with
  | nil => rfl
  | cons hxy _ ih => rw [List.map_cons, List.map_cons, hkey _ _ hxy, ih]

/-- Where each entry keeps its key, what is read at a key is related too. -/
theorem lookup_of_forall₂ (hkey : ∀ x y, Q x y → y.1 = x.1) {xs : List (κ × α)}
    {ys : List (κ × β)} (h : List.Forall₂ Q xs ys) (k : κ) :
    Option.Rel (fun a b => Q (k, a) (k, b)) (xs.lookup k) (ys.lookup k) := by
  induction h with
  | nil => exact .none
  | @cons x y xs ys hxy hrest ih =>
    rcases x with ⟨j, a⟩
    rcases y with ⟨_, b⟩
    obtain rfl := hkey _ _ hxy
    simp only [List.lookup_cons]
    split
    · rename_i hk
      obtain rfl : k = _ := by simpa using hk
      exact .some hxy
    · exact ih

theorem lookup_left (hkey : ∀ x y, Q x y → y.1 = x.1) {xs : List (κ × α)} {ys : List (κ × β)}
    (h : List.Forall₂ Q xs ys) {k : κ} {a : α} (ha : xs.lookup k = some a) :
    ∃ b, ys.lookup k = some b ∧ Q (k, a) (k, b) := by
  have hrel := lookup_of_forall₂ hkey h k
  rw [ha] at hrel
  generalize ys.lookup k = found at hrel
  cases hrel with
  | some hab => exact ⟨_, rfl, hab⟩

theorem lookup_right (hkey : ∀ x y, Q x y → y.1 = x.1) {xs : List (κ × α)} {ys : List (κ × β)}
    (h : List.Forall₂ Q xs ys) {k : κ} {b : β} (hb : ys.lookup k = some b) :
    ∃ a, xs.lookup k = some a ∧ Q (k, a) (k, b) := by
  have hrel := lookup_of_forall₂ hkey h k
  rw [hb] at hrel
  generalize xs.lookup k = found at hrel
  cases hrel with
  | some hab => exact ⟨_, rfl, hab⟩

end related

end dicts
