-- The in-memory backend of `memory/backends.py`: entries that expire, and are deleted only when
-- somebody comes upon them. For its users they are gone as soon as they expire.
import Orchestra.Values
import Orchestra.Lib.Text
import Mathlib.Algebra.Order.Field.Rat
import Mathlib.Tactic.NormNum

open dicts texts

namespace orchestra.backends

/-! ## The backend -/

/-- A value, and when it expires. -/
abbrev Entry : Type := Value × Option Rat

abbrev InMemoryMemoryBackend : Type := Dict String Entry

/-- `expiry and now > expiry` -/
def expired (expiry : Option Rat) (now : Rat) : Bool :=
  match expiry with
  | some t => t ≠ 0 && t < now
  | none => false

def get (data : InMemoryMemoryBackend) (now : Rat) (key : String) :
    InMemoryMemoryBackend × Value :=
  match data.get? key with
  | none => (data, .none)
  | some (value, expiry) => if expired expiry now then (data.erase key, .none) else (data, value)

def set (data : InMemoryMemoryBackend) (now : Rat) (key : String) (value : Value)
    (ttl : Option Int) : InMemoryMemoryBackend :=
  data.set key (value, ttl.map (fun ttl => now + ttl))

def delete (data : InMemoryMemoryBackend) (key : String) : InMemoryMemoryBackend := data.erase key

/-- `exists`, which is false of a value that is `None`. -/
def holds (data : InMemoryMemoryBackend) (now : Rat) (key : String) : InMemoryMemoryBackend × Bool :=
  let (data, value) := get data now key
  (data, value != .none)

def keys (data : InMemoryMemoryBackend) (now : Rat) (pattern : String) :
    InMemoryMemoryBackend × List String :=
  let gone := (data.entries.filter (fun e => expired e.2.2 now)).map Prod.fst
  let data := gone.foldl Dict.erase data
  (data, data.keys.filter (fun k => fnmatch k pattern))

inductive Op
  | get (key : String)
  | set (key : String) (value : Value) (ttl : Option Int)
  | delete (key : String)
  | holds (key : String)
  | keys (pattern : String)

inductive Answer
  | value (v : Value)
  | done
  | truth (b : Bool)
  | names (keys : List String)

def perform (data : InMemoryMemoryBackend) (now : Rat) : Op → InMemoryMemoryBackend × Answer
  | .get key => let (data, v) := get data now key; (data, .value v)
  | .set key value ttl => (set data now key value ttl, .done)
  | .delete key => (delete data key, .done)
  | .holds key => let (data, b) := holds data now key; (data, .truth b)
  | .keys pattern => let (data, names) := keys data now pattern; (data, .names names)

/-- An operation and when it is performed. -/
abbrev Call : Type := Rat × Op

def after (calls : List Call) : InMemoryMemoryBackend :=
  calls.foldl (fun data call => (perform data call.1 call.2).1) .empty

/-! ## What is held -/

/-- What was written last under each key, whether it has expired or not. -/
abbrev Held : Type := String → Option Entry

def write (held : Held) (call : Call) : Held :=
  match call.2 with
  | .set key value ttl =>
    fun k => if k = key then some (value, ttl.map (fun ttl => call.1 + ttl)) else held k
  | .delete key => fun k => if k = key then none else held k
  | _ => held

def written (calls : List Call) : Held := calls.foldl write (fun _ => none)

/-- The value of a key that is held and has not expired. -/
def live (held : Held) (now : Rat) (key : String) : Option Value :=
  match held key with
  | some (value, expiry) => if expired expiry now then none else some value
  | none => none

/-- The answer is what the held entries say. -/
def Says (held : Held) (now : Rat) : Op → Answer → Prop
  | .get key, .value v => v = (live held now key).getD .none
  | .set _ _ _, .done => True
  | .delete _, .done => True
  | .holds key, .truth b => b = ((live held now key).getD .none != .none)
  | .keys pattern, .names names => names.Nodup ∧
      ∀ k, k ∈ names ↔ (live held now k).isSome = true ∧ fnmatch k pattern = true
  | _, _ => False

/-! ## The backend holds what is written -/

/-- The backend has what is held, up to entries that have expired by now. -/
def Refines (data : InMemoryMemoryBackend) (held : Held) (now : Rat) : Prop :=
  ∀ k, data.get? k = held k ∨
    (data.get? k = none ∧ ∃ value expiry, held k = some (value, expiry) ∧ expired expiry now = true)

variable {data : InMemoryMemoryBackend} {held : Held} {now then' : Rat} {key : String}

theorem expired_mono {expiry : Option Rat} (h : now ≤ then') (hexpired : expired expiry now = true) :
    expired expiry then' = true := by
  cases expiry with
  | none => cases hexpired
  | some t =>
    simp only [expired, Bool.and_eq_true, decide_eq_true_eq] at *
    exact ⟨hexpired.1, hexpired.2.trans_le h⟩

theorem Refines.later (h : Refines data held now) (hle : now ≤ then') : Refines data held then' := by
  intro k
  rcases h k with hk | ⟨hnone, value, expiry, hheld, hexpired⟩
  · exact Or.inl hk
  · exact Or.inr ⟨hnone, value, expiry, hheld, expired_mono hle hexpired⟩

/-- What the backend has and has not expired is what is live. -/
theorem Refines.live_eq (h : Refines data held now) (k : String) :
    live held now k = (data.get? k).bind
      (fun entry => if expired entry.2 now then none else some entry.1) := by
  rcases h k with hk | ⟨hnone, value, expiry, hheld, hexpired⟩
  · rw [hk]
    unfold live
    cases held k with
    | none => rfl
    | some entry => rfl
  · simp [live, hheld, hnone, hexpired]

/-- An entry that has expired may be deleted. -/
theorem Refines.erase (h : Refines data held now) {value : Value} {expiry : Option Rat}
    (hget : data.get? key = some (value, expiry)) (hexpired : expired expiry now = true) :
    Refines (data.erase key) held now := by
  intro k
  rw [Dict.get?_erase]
  by_cases hk : key = k
  · subst hk
    rcases h key with hsame | ⟨hnone, -⟩
    · exact Or.inr ⟨by simp, value, expiry, hsame ▸ hget, hexpired⟩
    · rw [hnone] at hget
      cases hget
  · simpa [hk] using h k

/-- Erasing what has expired, one after another. -/
theorem Refines.eraseAll (gone : List String) (h : Refines data held now)
    (hgone : ∀ k ∈ gone, ∃ value expiry, data.get? k = some (value, expiry) ∧
      expired expiry now = true) (hnodup : gone.Nodup) :
    Refines (gone.foldl Dict.erase data) held now := by
  induction gone generalizing data with
  | nil => exact h
  | cons k rest ih =>
    obtain ⟨value, expiry, hget, hexpired⟩ := hgone k (by simp)
    rw [List.nodup_cons] at hnodup
    refine ih (h.erase hget hexpired) (fun j hj => ?_) hnodup.2
    have hne : k ≠ j := fun heq => hnodup.1 (heq ▸ hj)
    obtain ⟨value', expiry', hget', hexpired'⟩ := hgone j (List.mem_cons_of_mem _ hj)
    exact ⟨value', expiry', by rw [Dict.get?_erase, if_neg hne, hget'], hexpired'⟩

theorem get?_eraseAll (gone : List String) (k : String) :
    (gone.foldl Dict.erase data).get? k = if k ∈ gone then none else data.get? k := by
  induction gone generalizing data with
  | nil => simp
  | cons j rest ih =>
    rw [List.foldl_cons, ih, Dict.get?_erase]
    by_cases hmem : k ∈ rest
    · simp [hmem]
    · by_cases hjk : j = k
      · simp [hjk]
      · simp [hmem, hjk, Ne.symm hjk]

/-! ## One operation -/

theorem Refines.get (h : Refines data held now) (key : String) :
    Refines (get data now key).1 held now ∧
      (get data now key).2 = (live held now key).getD .none := by
  rw [h.live_eq key]
  unfold backends.get
  cases hget : data.get? key with
  | none => exact ⟨h, rfl⟩
  | some entry =>
    obtain ⟨value, expiry⟩ := entry
    cases hexpired : expired expiry now with
    | true => simpa [hexpired] using h.erase hget hexpired
    | false => simpa [hexpired] using h

/-- What has expired is swept away, and nothing else. -/
theorem Refines.keys (h : Refines data held now) (pattern : String) :
    Refines (keys data now pattern).1 held now ∧ (keys data now pattern).2.Nodup ∧
      ∀ k, k ∈ (keys data now pattern).2 ↔
        (live held now k).isSome = true ∧ fnmatch k pattern = true := by
  have hgone : ∀ k, k ∈ (data.entries.filter (fun e => expired e.2.2 now)).map Prod.fst ↔
      ∃ value expiry, data.get? k = some (value, expiry) ∧ expired expiry now = true := by
    intro k
    simp only [List.mem_map, List.mem_filter]
    constructor
    · rintro ⟨⟨j, value, expiry⟩, ⟨hmem, hexpired⟩, rfl⟩
      exact ⟨value, expiry, (Dict.mem_entries_iff _ _ _).mp hmem, hexpired⟩
    · rintro ⟨value, expiry, hget, hexpired⟩
      exact ⟨(k, value, expiry), ⟨(Dict.mem_entries_iff _ _ _).mpr hget, hexpired⟩, rfl⟩
  have hnodup : ((data.entries.filter (fun e => expired e.2.2 now)).map Prod.fst).Nodup :=
    (List.filter_sublist.map _).nodup data.nodup
  unfold backends.keys
  dsimp only
  refine ⟨h.eraseAll _ (fun k hk => (hgone k).mp hk) hnodup, ?_, fun k => ?_⟩
  · exact (Dict.nodup _).filter _
  · rw [List.mem_filter, Dict.mem_keys_iff, get?_eraseAll, h.live_eq k]
    refine and_congr_left fun _ => ?_
    cases hget : data.get? k with
    | none =>
      have hnot : k ∉ (data.entries.filter (fun e => expired e.2.2 now)).map Prod.fst := by
        rw [hgone, hget]
        rintro ⟨value, expiry, hno, -⟩
        cases hno
      simp
    | some entry =>
      obtain ⟨value, expiry⟩ := entry
      cases hexpired : expired expiry now with
      | true =>
        rw [if_pos ((hgone k).mpr ⟨value, expiry, hget, hexpired⟩)]
        simp [hexpired]
      | false =>
        rw [if_neg]
        · simp [hexpired]
        · rw [hgone, hget]
          rintro ⟨value', expiry', hsame, hyes⟩
          cases hsame
          rw [hexpired] at hyes
          cases hyes

/-- Every operation answers as what is held says, and the backend still has what is held. -/
theorem Refines.perform (h : Refines data held now) (op : Op) :
    Refines (perform data now op).1 (write held (now, op)) now ∧
      Says held now op (perform data now op).2 := by
  cases op with
  | get key => exact h.get key
  | set key value ttl =>
    refine ⟨fun k => ?_, trivial⟩
    simp only [backends.perform, set, write, Dict.get?_set]
    by_cases hk : key = k
    · simp [hk]
    · simpa [hk, Ne.symm hk] using h k
  | delete key =>
    refine ⟨fun k => ?_, trivial⟩
    simp only [backends.perform, delete, write, Dict.get?_erase]
    by_cases hk : key = k
    · simp [hk]
    · simpa [hk, Ne.symm hk] using h k
  | holds key =>
    obtain ⟨hdata, hvalue⟩ := h.get key
    refine ⟨hdata, ?_⟩
    simp only [backends.perform, holds, Says, hvalue]
  | keys pattern => exact h.keys pattern

/-! ## Any calls -/

/-- The times of the calls never go back. -/
def Ordered (calls : List Call) : Prop := (calls.map Prod.fst).Pairwise (· ≤ ·)

theorem refines_after {calls : List Call} (h : Ordered calls)
    (hnow : ∀ call ∈ calls, call.1 ≤ now) : Refines (after calls) (written calls) now := by
  suffices hfrom : ∀ data held start, Refines data held start →
      (∀ call ∈ calls, start ≤ call.1) → start ≤ now →
      Refines (calls.foldl (fun data call => (perform data call.1 call.2).1) data)
        (calls.foldl write held) now by
    cases calls with
    | nil => exact fun k => Or.inl rfl
    | cons call rest =>
      refine hfrom .empty _ call.1 (fun k => Or.inl rfl) ?_ (hnow call (by simp))
      intro c hc
      rcases List.mem_cons.mp hc with rfl | hc
      · exact le_rfl
      · exact (List.pairwise_cons.mp h).1 _ (List.mem_map_of_mem hc)
  induction calls with
  | nil =>
    intro data held start hrefines _ hstart
    exact hrefines.later hstart
  | cons call rest ih =>
    intro data held start hrefines hafter _
    have hcall := (hrefines.later (hafter call (by simp))).perform call.2
    have hrest := List.pairwise_cons.mp h
    exact ih hrest.2 (fun c hc => hnow c (by simp [hc])) _ _ call.1 hcall.1
      (fun c hc => hrest.1 _ (List.mem_map_of_mem hc)) (hnow call (by simp))

/-- Among any calls whose times never go back, each one is answered as if nothing were ever kept
but the last write of each key, and each key were gone the moment it expires. -/
theorem expired_entries_are_gone {calls rest : List Call} {op : Op}
    (h : Ordered (calls ++ (now, op) :: rest)) :
    Says (written calls) now op (perform (after calls) now op).2 := by
  unfold Ordered at h
  rw [List.map_append, List.pairwise_append] at h
  refine ((refines_after h.1 fun call hcall => ?_).perform op).2
  exact h.2.2 _ (List.mem_map_of_mem hcall) now (by simp)

/-- A value that is set for five seconds is gone after six. -/
theorem a_value_expires :
    Says (written [(1, .set "k" (.int 7) (some 5))]) 7 (.get "k")
      (perform (after [(1, .set "k" (.int 7) (some 5))]) 7 (.get "k")).2 := by
  have hordered : Ordered ([(1, .set "k" (.int 7) (some 5))] ++ (7, .get "k") :: []) := by
    norm_num [Ordered]
  exact expired_entries_are_gone hordered

end orchestra.backends
