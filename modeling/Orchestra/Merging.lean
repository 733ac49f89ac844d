-- The merge of parallel updates (`merge_parallel_updates` of `state.py`): each
-- field goes its own way, so the order of the branches counts only for a field
-- that two of them write.
import Orchestra.Compiled

open dicts orchestra.state orchestra.compiled

namespace orchestra.merging

/-! ## One field -/

/-- The new value of a field: what its reducer says, else the value of the
update. -/
def written (S : Schema) (key : String) (old value : Value) : Option Value :=
  match S.reducers.get? key with
  | none => some value
  | some r => (r.reduce old value).toOption

/-- A field after a list of updates, from the value `x` on. It is `none` when its
reducer fails. -/
def fieldAfter (S : Schema) (key : String) (x : Value) (updates : List PyDict) : Option Value :=
  (updates.filterMap (·.get? key)).foldlM (written S key) x

@[simp] theorem fieldAfter_nil (S : Schema) (key : String) (x : Value) :
    fieldAfter S key x [] = some x := rfl

theorem fieldAfter_cons (S : Schema) (key : String) (x : Value) (update : PyDict)
    (rest : List PyDict) :
    fieldAfter S key x (update :: rest) =
      (fieldAfter S key x [update]).bind (fieldAfter S key · rest) := by
  unfold fieldAfter
  cases hu : update.get? key with
  | none => simp [hu]
  | some v => simp [hu, List.foldlM_cons]

theorem fieldAfter_one_of_some {S : Schema} {key : String} {x v : Value} {update : PyDict}
    (h : update.get? key = some v) : fieldAfter S key x [update] = written S key x v := by
  simp [fieldAfter, h]

theorem fieldAfter_untouched {S : Schema} {key : String} {updates : List PyDict}
    (h : ∀ u ∈ updates, key ∉ u.keys) (x : Value) : fieldAfter S key x updates = some x := by
  have hnone : updates.filterMap (·.get? key) = [] := by
    rw [List.filterMap_eq_nil_iff]
    exact fun u hu => (Dict.get?_eq_none_iff u key).mpr (h u hu)
  simp [fieldAfter, hnone]

/-! ## All fields -/

/-- Every key of the updates is a field, and no reducer fails. -/
structure Mergeable (S : Schema) (current : PyDict) (updates : List PyDict) : Prop where
  known : ∀ u ∈ updates, ∀ k ∈ u.keys, k ∈ current.keys
  reduced : ∀ k x, current.get? k = some x → (fieldAfter S k x updates).isSome = true

/-- The fields after the updates. -/
def merged (S : Schema) (current : PyDict) (updates : List PyDict) : PyDict :=
  current.mapValues (fun k x => (fieldAfter S k x updates).getD x)

@[simp] theorem keys_merged (S : Schema) (current : PyDict) (updates : List PyDict) :
    (merged S current updates).keys = current.keys := Dict.keys_mapValues _ _

theorem get?_merged {S : Schema} {current : PyDict} {updates : List PyDict}
    (h : Mergeable S current updates) {k : String} {x : Value} (hk : current.get? k = some x) :
    (merged S current updates).get? k = fieldAfter S k x updates := by
  obtain ⟨y, hy⟩ := Option.isSome_iff_exists.mp (h.reduced k x hk)
  simp [merged, Dict.get?_mapValues, hk, hy]

theorem get?_merged_none {S : Schema} {current : PyDict} {updates : List PyDict} {k : String}
    (hk : current.get? k = none) : (merged S current updates).get? k = none := by
  simp [merged, Dict.get?_mapValues, hk]

theorem merged_nil (S : Schema) (current : PyDict) : merged S current [] = current := by
  apply Dict.ext_of_keys (keys_merged S current [])
  intro k
  cases hk : current.get? k <;> simp [merged, Dict.get?_mapValues, hk]

/-- A list of updates can be merged when its first can, and then the others can
on what it leaves. -/
theorem mergeable_cons_iff (S : Schema) (current update : PyDict) (rest : List PyDict) :
    Mergeable S current (update :: rest) ↔
      Mergeable S current [update] ∧ Mergeable S (merged S current [update]) rest := by
  constructor
  · intro h
    have hfirst : Mergeable S current [update] := by
      refine ⟨fun u hu => h.known u ?_, fun k x hk => ?_⟩
      · rw [List.mem_singleton] at hu
        exact hu ▸ List.mem_cons_self ..
      · have hsome := h.reduced k x hk
        rw [fieldAfter_cons] at hsome
        exact Option.isSome_of_isSome_bind hsome
    refine ⟨hfirst, fun u hu k hk => ?_, fun k y hk => ?_⟩
    · rw [keys_merged]
      exact h.known u (List.mem_cons_of_mem _ hu) k hk
    · rcases hx : current.get? k with _ | x
      · rw [get?_merged_none hx] at hk
        cases hk
      · have hsome := h.reduced k x hx
        rw [get?_merged hfirst hx] at hk
        rw [fieldAfter_cons, hk] at hsome
        exact hsome
  · rintro ⟨hfirst, hrest⟩
    refine ⟨fun u hu k hk => ?_, fun k x hk => ?_⟩
    · rcases List.mem_cons.mp hu with rfl | hu
      · exact hfirst.known u (List.mem_singleton_self u) k hk
      · rw [← keys_merged S current [update]]
        exact hrest.known u hu k hk
    · obtain ⟨y, hy⟩ := Option.isSome_iff_exists.mp (hfirst.reduced k x hk)
      rw [fieldAfter_cons, hy]
      exact hrest.reduced k y ((get?_merged hfirst hk).trans hy)

theorem merged_cons {S : Schema} {current update : PyDict} {rest : List PyDict}
    (h : Mergeable S current (update :: rest)) :
    merged S current (update :: rest) = merged S (merged S current [update]) rest := by
  obtain ⟨hfirst, hrest⟩ := (mergeable_cons_iff ..).mp h
  apply Dict.ext_of_keys (by simp)
  intro k
  rcases hk : current.get? k with _ | x
  · rw [get?_merged_none hk, get?_merged_none (get?_merged_none hk)]
  · obtain ⟨y, hy⟩ := Option.isSome_iff_exists.mp (hfirst.reduced k x hk)
    have hmid : (merged S current [update]).get? k = some y := (get?_merged hfirst hk).trans hy
    rw [get?_merged h hk, get?_merged hrest hmid, fieldAfter_cons, hy]
    rfl

/-! ## One update -/

/-- The entries of one update, on the fields that are not yet written. -/
theorem updateFields_ok {S : Schema} {current : PyDict} {es : List (String × Value)} {new : PyDict}
    (hn : (es.map Prod.fst).Nodup) (hnew : new.keys = current.keys)
    (h : ∀ k v, (k, v) ∈ es → ∃ old w, current.get? k = some old ∧ written S k old v = some w) :
    ∃ s, updateFields S current es new = .ok s ∧ s.keys = current.keys ∧
      ∀ k, s.get? k = match es.lookup k with
        | some v => (current.get? k).bind (written S k · v)
        | none => new.get? k := by
  induction es generalizing new with
  | nil => exact ⟨new, rfl, hnew, fun k => rfl⟩
  | cons e rest ih =>
    obtain ⟨key, value⟩ := e
    rw [List.map_cons, List.nodup_cons] at hn
    obtain ⟨old, w, hold, hw⟩ := h key value (List.mem_cons_self ..)
    have hmem : key ∈ new.keys := hnew ▸ (Dict.mem_keys_iff _ _).mpr ⟨old, hold⟩
    have hset : (new.set key w).keys = current.keys := (Dict.keys_set_of_mem hmem w).trans hnew
    obtain ⟨s, hs, hkeys, hget⟩ := ih hn.2 hset (fun k v hkv => h k v (List.mem_cons_of_mem _ hkv))
    refine ⟨s, ?_, hkeys, fun k => ?_⟩
    · unfold written at hw
      unfold updateFields
      rw [hold]
      rcases hr : S.reducers.get? key with _ | r
      · simp only [hr, Option.some.injEq] at hw
        subst hw
        exact hs
      · simp only [hr] at hw
        rcases hreduce : r.reduce old value with e | v
        · simp [hreduce, Except.toOption] at hw
        · simp only [hreduce, Except.toOption, Option.some.injEq] at hw
          subst hw
          simpa only [hr, hreduce] using hs
    · rw [hget k]
      by_cases hk : k = key
      · subst hk
        have hnot : rest.lookup k = none := by
          rw [List.lookup_eq_none_iff]
          intro p hp
          have hne : k ≠ p.1 := fun heq => hn.1 (List.mem_map.mpr ⟨p, hp, heq.symm⟩)
          simpa using hne
        simp [hnot, hold, hw]
      · have hbeq : (k == key) = false := by simpa using hk
        rw [List.lookup_cons, hbeq, Dict.get?_set_ne _ _ (fun heq => hk heq.symm)]

theorem updateFields_error {S : Schema} {current : PyDict} {es : List (String × Value)}
    {new : PyDict} {k : String} {v : Value} (hmem : (k, v) ∈ es)
    (h : ∀ old w, current.get? k = some old → written S k old v ≠ some w) :
    ∃ e, updateFields S current es new = .error e := by
  induction es generalizing new with
  | nil => cases hmem
  | cons e rest ih =>
    obtain ⟨key, value⟩ := e
    unfold updateFields
    rcases hold : current.get? key with _ | old
    · simp
    simp only
    rcases List.mem_cons.mp hmem with heq | hmem
    · cases heq
      have hno := h old
      rcases hr : S.reducers.get? k with _ | r
      · exact absurd (by simp [written, hr]) (hno v hold)
      · rcases hreduce : r.reduce old v with e | w
        · simp [hreduce]
        · exact absurd (by simp [written, hr, hreduce, Except.toOption]) (hno w hold)
    · split
      · exact ih hmem
      · split
        · exact ih hmem
        · simp

/-! ## Validation -/

/-- What is relied on of validation, for the types `T` of the fields: it leaves
well-typed data as it is, and a reducer keeps to the type of its field. -/
structure Typed (S : Schema) (T : String → Value → Prop) : Prop where
  identity : ∀ d : PyDict, d.keys = S.fields → (∀ k v, d.get? k = some v → T k v) →
    S.validate d = .ok d
  closed : ∀ k r x a y, S.reducers.get? k = some r → T k x → T k a → r.reduce x a = .ok y → T k y

/-- A state of the class. -/
structure StateOf (S : Schema) (T : String → Value → Prop) (current : PyDict) : Prop where
  keys : current.keys = S.fields
  typed : ∀ k v, current.get? k = some v → T k v

/-- The update writes values of the right types, where it writes fields. -/
def WellTyped (S : Schema) (T : String → Value → Prop) (update : PyDict) : Prop :=
  ∀ k ∈ S.fields, ∀ v, update.get? k = some v → T k v

section merges

variable {S : Schema} {T : String → Value → Prop} {current : PyDict}

theorem written_typed (hT : Typed S T) {k : String} {x a y : Value} (hx : T k x) (ha : T k a)
    (h : written S k x a = some y) : T k y := by
  unfold written at h
  split at h
  · cases h
    exact ha
  · rename_i r hr
    rcases hreduce : r.reduce x a with e | w
    · simp [hreduce, Except.toOption] at h
    · simp only [hreduce, Except.toOption, Option.some.injEq] at h
      subst h
      exact hT.closed k r x a w hr hx ha hreduce

theorem stateOf_merged (hT : Typed S T) (hcurrent : StateOf S T current) {update : PyDict}
    (hupdate : WellTyped S T update) (h : Mergeable S current [update]) :
    StateOf S T (merged S current [update]) := by
  refine ⟨(keys_merged ..).trans hcurrent.keys, fun k y hk => ?_⟩
  rcases hx : current.get? k with _ | x
  · rw [get?_merged_none hx] at hk
    cases hk
  · have htype := hcurrent.typed k x hx
    rw [get?_merged h hx] at hk
    rcases hu : update.get? k with _ | v
    · have hnot : k ∉ update.keys := (Dict.get?_eq_none_iff _ _).mp hu
      rw [fieldAfter_untouched (by simpa using hnot)] at hk
      cases hk
      exact htype
    · have hfield : k ∈ S.fields := hcurrent.keys ▸ (Dict.mem_keys_iff _ _).mpr ⟨x, hx⟩
      rw [fieldAfter_one_of_some hu] at hk
      exact written_typed hT htype (hupdate k hfield v hu) hk

theorem applyStateUpdate_ok (hT : Typed S T) (hcurrent : StateOf S T current) {update : PyDict}
    (hupdate : WellTyped S T update) (h : Mergeable S current [update]) :
    applyStateUpdate S current update = .ok (merged S current [update]) := by
  have hentries : ∀ k v, (k, v) ∈ update.entries →
      ∃ old w, current.get? k = some old ∧ written S k old v = some w := by
    intro k v hkv
    have hu := (Dict.mem_entries_iff update k v).mp hkv
    have hknown := h.known update (List.mem_singleton_self _) k
      ((Dict.mem_keys_iff _ _).mpr ⟨v, hu⟩)
    obtain ⟨old, hold⟩ := (Dict.mem_keys_iff _ _).mp hknown
    obtain ⟨w, hw⟩ := Option.isSome_iff_exists.mp (h.reduced k old hold)
    rw [fieldAfter_one_of_some hu] at hw
    exact ⟨old, w, hold, hw⟩
  obtain ⟨s, hs, hkeys, hget⟩ := updateFields_ok update.nodup rfl hentries
  have hmerged : s = merged S current [update] := by
    apply Dict.ext_of_keys (hkeys.trans (keys_merged ..).symm)
    intro k
    have hlookup : update.entries.lookup k = update.get? k := rfl
    rw [hget k, hlookup]
    rcases hx : current.get? k with _ | x
    · rw [get?_merged_none hx]
      split <;> rfl
    · rw [get?_merged h hx]
      rcases hu : update.get? k with _ | v
      · have hnot : k ∉ update.keys := (Dict.get?_eq_none_iff _ _).mp hu
        rw [fieldAfter_untouched (by simpa using hnot)]
      · rw [fieldAfter_one_of_some hu]
        rfl
  have hstate := stateOf_merged hT hcurrent hupdate h
  unfold applyStateUpdate validateState
  rw [hs, hmerged]
  simp only [hT.identity _ hstate.keys hstate.typed]

theorem applyStateUpdate_error {update : PyDict} (h : ¬ Mergeable S current [update]) :
    ∃ e, applyStateUpdate S current update = .error e := by
  have hbad : ∃ k v, (k, v) ∈ update.entries ∧
      ∀ old w, current.get? k = some old → written S k old v ≠ some w := by
    by_contra hnone
    simp only [not_exists, not_and, not_forall, not_not] at hnone
    apply h
    refine ⟨fun u hu k hk => ?_, fun k x hx => ?_⟩
    · rw [List.mem_singleton] at hu
      subst hu
      obtain ⟨v, hv⟩ := (Dict.mem_keys_iff _ _).mp hk
      obtain ⟨old, -, hold, -⟩ := hnone k v ((Dict.mem_entries_iff ..).mpr hv)
      exact (Dict.mem_keys_iff _ _).mpr ⟨old, hold⟩
    · rcases hu : update.get? k with _ | v
      · have hnot : k ∉ update.keys := (Dict.get?_eq_none_iff _ _).mp hu
        rw [fieldAfter_untouched (by simpa using hnot)]
        rfl
      · obtain ⟨old, w, hold, hw⟩ := hnone k v ((Dict.mem_entries_iff ..).mpr hu)
        rw [hx] at hold
        cases hold
        rw [fieldAfter_one_of_some hu, hw]
        rfl
  obtain ⟨k, v, hmem, hno⟩ := hbad
  obtain ⟨e, he⟩ : ∃ e, updateFields S current update.entries current = .error e :=
    updateFields_error hmem hno
  exact ⟨e, by simp [applyStateUpdate, he]⟩

/-- The merge gives the fields after the updates, or it raises. -/
theorem mergeParallelUpdates_ok (hT : Typed S T) (hcurrent : StateOf S T current)
    {updates : List PyDict} (hupdates : ∀ u ∈ updates, WellTyped S T u)
    (h : Mergeable S current updates) :
    mergeParallelUpdates S current updates = .ok (merged S current updates) := by
  induction updates generalizing current with
  | nil => rw [merged_nil]; rfl
  | cons update rest ih =>
    obtain ⟨hfirst, hrest⟩ := (mergeable_cons_iff ..).mp h
    have hupdate := hupdates update (List.mem_cons_self ..)
    unfold mergeParallelUpdates
    rw [applyStateUpdate_ok hT hcurrent hupdate hfirst, merged_cons h]
    exact ih (stateOf_merged hT hcurrent hupdate hfirst)
      (fun u hu => hupdates u (List.mem_cons_of_mem _ hu)) hrest

theorem mergeParallelUpdates_error (hT : Typed S T) (hcurrent : StateOf S T current)
    {updates : List PyDict} (hupdates : ∀ u ∈ updates, WellTyped S T u)
    (h : ¬ Mergeable S current updates) :
    ∃ e, mergeParallelUpdates S current updates = .error e := by
  induction updates generalizing current with
  | nil => exact absurd ⟨by simp, by simp⟩ h
  | cons update rest ih =>
    have hupdate := hupdates update (List.mem_cons_self ..)
    unfold mergeParallelUpdates
    by_cases hfirst : Mergeable S current [update]
    · rw [applyStateUpdate_ok hT hcurrent hupdate hfirst]
      exact ih (stateOf_merged hT hcurrent hupdate hfirst)
        (fun u hu => hupdates u (List.mem_cons_of_mem _ hu))
        (fun hrest => h ((mergeable_cons_iff ..).mpr ⟨hfirst, hrest⟩))
    · obtain ⟨e, he⟩ := applyStateUpdate_error hfirst
      exact ⟨e, by rw [he]⟩

/-! ## The order -/

/-- The order does not count for steps that stay within `P` and commute there. -/
theorem foldlM_perm {α : Type} {P : α → Prop} {step : α → α → Option α}
    (hstep : ∀ x a, P x → P a → ∃ y, step x a = some y ∧ P y)
    (hcomm : ∀ x a b, P x → P a → P b → (step x a).bind (step · b) = (step x b).bind (step · a))
    {l l' : List α} (hperm : l.Perm l') (hl : ∀ a ∈ l, P a) {x : α} (hx : P x) :
    l.foldlM step x = l'.foldlM step x := by
  induction hperm generalizing x with
  | nil => rfl
  | cons a _ ih =>
    obtain ⟨y, hy, hPy⟩ := hstep x a hx (hl a (List.mem_cons_self ..))
    simp only [List.foldlM_cons, hy, Option.bind_eq_bind, Option.bind_some]
    exact ih (fun b hb => hl b (List.mem_cons_of_mem _ hb)) hPy
  | swap a b l =>
    have ha := hl a (List.mem_cons_of_mem _ (List.mem_cons_self ..))
    have hb := hl b (List.mem_cons_self ..)
    simp only [List.foldlM_cons, Option.bind_eq_bind, ← Option.bind_assoc]
    rw [hcomm x b a hx hb ha]
  | trans h₁ _ ih₁ ih₂ => exact (ih₁ hl hx).trans (ih₂ (fun a ha => hl a (h₁.mem_iff.mpr ha)) hx)

theorem eq_of_perm_of_length_le_one {α : Type} {l l' : List α} (h : l.Perm l')
    (hl : l.length ≤ 1) : l = l' := by
  match l, hl with
  | [], _ => exact h.nil_eq
  | [a], _ => exact List.singleton_perm.mp h

/-- The field has a reducer that is total on its type and can take two updates in
either order. -/
def Commutes (S : Schema) (T : String → Value → Prop) (key : String) : Prop :=
  ∃ (r : Reducer) (f : Value → Value → Value), S.reducers.get? key = some r ∧
    (∀ x a, T key x → T key a → r.reduce x a = .ok (f x a)) ∧
    ∀ x a b, T key x → T key a → T key b → f (f x a) b = f (f x b) a

theorem fieldAfter_perm (hT : Typed S T) {key : String} {x : Value} (hx : T key x)
    {updates updates' : List PyDict} (hperm : updates.Perm updates')
    (hvalues : ∀ u ∈ updates, ∀ v, u.get? key = some v → T key v)
    (h : 2 ≤ (updates.filter (fun u => decide (key ∈ u.keys))).length → Commutes S T key) :
    fieldAfter S key x updates = fieldAfter S key x updates' := by
  have hvperm : (updates.filterMap (·.get? key)).Perm (updates'.filterMap (·.get? key)) :=
    hperm.filterMap _
  unfold fieldAfter
  by_cases htwo : 2 ≤ (updates.filter (fun u => decide (key ∈ u.keys))).length
  · obtain ⟨r, f, hr, htotal, hcomm⟩ := h htwo
    have hwritten : ∀ x a, T key x → T key a →
        written S key x a = some (f x a) ∧ T key (f x a) := by
      intro x a hx ha
      have hf := htotal x a hx ha
      exact ⟨by simp [written, hr, hf, Except.toOption], hT.closed key r x a _ hr hx ha hf⟩
    apply foldlM_perm (P := T key) _ _ hvperm _ hx
    · exact fun x a hx ha => ⟨f x a, hwritten x a hx ha⟩
    · intro x a b hx ha hb
      obtain ⟨hxa, hTa⟩ := hwritten x a hx ha
      obtain ⟨hxb, hTb⟩ := hwritten x b hx hb
      rw [hxa, hxb, Option.bind_some, Option.bind_some, (hwritten _ b hTa hb).1,
        (hwritten _ a hTb ha).1, hcomm x a b hx ha hb]
    · intro v hv
      obtain ⟨u, hu, huv⟩ := List.mem_filterMap.mp hv
      exact hvalues u hu v huv
  · -- At most one update writes the field, and its value is the whole list.
    have hlength : (updates.filterMap (·.get? key)).length ≤ 1 := by
      have hsame : (updates.filterMap (·.get? key)).length =
          (updates.filter (fun u => decide (key ∈ u.keys))).length := by
        rw [List.length_filterMap_eq_countP, ← List.countP_eq_length_filter]
        apply List.countP_congr
        intro u _
        simp [Dict.mem_keys_iff, Option.isSome_iff_exists]
      omega
    rw [eq_of_perm_of_length_le_one hvperm hlength]

/-- The merge of parallel updates does not depend on their order, when a field
that two of them write has a reducer that takes them in either order. Fields that
none of them writes stay as they are. -/
theorem merge_ignores_order (S : Schema) (T : String → Value → Prop) (hT : Typed S T)
    (current : PyDict) (hcurrent : StateOf S T current) (updates : List PyDict)
    (hupdates : ∀ u ∈ updates, WellTyped S T u) :
    (∀ updates', updates.Perm updates' →
      (∀ k ∈ S.fields, 2 ≤ (updates.filter (fun u => decide (k ∈ u.keys))).length →
        Commutes S T k) →
      (∃ s, mergeParallelUpdates S current updates = .ok s ∧
        mergeParallelUpdates S current updates' = .ok s) ∨
      (∃ e, mergeParallelUpdates S current updates = .error e) ∧
        ∃ e, mergeParallelUpdates S current updates' = .error e) ∧
    ∀ s, mergeParallelUpdates S current updates = .ok s →
      ∀ k, (∀ u ∈ updates, k ∉ u.keys) → s.get? k = current.get? k := by
  refine ⟨fun updates' hperm hcomm => ?_, fun s hs k hk => ?_⟩
  · have hupdates' : ∀ u ∈ updates', WellTyped S T u :=
      fun u hu => hupdates u (hperm.mem_iff.mpr hu)
    have hfield : ∀ k x, current.get? k = some x →
        fieldAfter S k x updates = fieldAfter S k x updates' := by
      intro k x hx
      have hmem : k ∈ S.fields := hcurrent.keys ▸ (Dict.mem_keys_iff _ _).mpr ⟨x, hx⟩
      exact fieldAfter_perm hT (hcurrent.typed k x hx) hperm (fun u hu => hupdates u hu k hmem)
        (hcomm k hmem)
    have hmergeable : Mergeable S current updates ↔ Mergeable S current updates' := by
      constructor
      · exact fun h => ⟨fun u hu => h.known u (hperm.mem_iff.mpr hu),
          fun k x hx => hfield k x hx ▸ h.reduced k x hx⟩
      · exact fun h => ⟨fun u hu => h.known u (hperm.mem_iff.mp hu),
          fun k x hx => (hfield k x hx).symm ▸ h.reduced k x hx⟩
    by_cases h : Mergeable S current updates
    · have hmerged : merged S current updates = merged S current updates' := by
        apply Dict.ext_of_keys (by simp)
        intro k
        rcases hx : current.get? k with _ | x
        · rw [get?_merged_none hx, get?_merged_none hx]
        · rw [get?_merged h hx, get?_merged (hmergeable.mp h) hx, hfield k x hx]
      left
      refine ⟨_, mergeParallelUpdates_ok hT hcurrent hupdates h, ?_⟩
      rw [mergeParallelUpdates_ok hT hcurrent hupdates' (hmergeable.mp h), hmerged]
    · exact Or.inr ⟨mergeParallelUpdates_error hT hcurrent hupdates h,
        mergeParallelUpdates_error hT hcurrent hupdates' (fun h' => h (hmergeable.mpr h'))⟩
  · by_cases h : Mergeable S current updates
    · rw [mergeParallelUpdates_ok hT hcurrent hupdates h] at hs
      cases hs
      rcases hx : current.get? k with _ | x
      · exact get?_merged_none hx
      · rw [get?_merged h hx, fieldAfter_untouched hk]
    · obtain ⟨e, he⟩ := mergeParallelUpdates_error hT hcurrent hupdates h
      rw [he] at hs
      cases hs

/-- The states of the engine are merged in this way. -/
theorem data_merge (state : WorkflowState (some S)) (updates : List PyDict) :
    (state.merge updates).map (·.data) = mergeParallelUpdates S state.data updates := by
  unfold WorkflowState.merge
  simp only
  split
  · rename_i s hs
    exact hs.symm
  · rename_i e he
    exact he.symm

end merges

/-! ## A counter and a note -/

theorem validate_ofDefaults {name : String} {defaults : PyDict} {reducers : Dict String Reducer}
    {h : loopCountersKey ∉ defaults.keys} {d : PyDict} (hd : d.keys = defaults.keys) :
    (Schema.ofDefaults name defaults reducers h).validate d = .ok d := by
  have hsame : defaults.mapValues (fun k v => (d.get? k).getD v) = d := by
    apply Dict.ext_of_keys ((Dict.keys_mapValues _ _).trans hd.symm)
    intro k
    rw [Dict.get?_mapValues]
    rcases hk : d.get? k with _ | v
    · have hnone : defaults.get? k = none := by
        rw [Dict.get?_eq_none_iff, ← hd]
        exact (Dict.get?_eq_none_iff _ _).mp hk
      rw [hnone]
      rfl
    · obtain ⟨w, hw⟩ := (Dict.mem_keys_iff _ _).mp (hd ▸ (Dict.mem_keys_iff _ _).mpr ⟨v, hk⟩)
      simp [hw]
  exact congrArg Except.ok hsame

/-- A class with a count that is summed and a note. -/
def countSchema : Schema :=
  Schema.ofDefaults "State" (Dict.ofList [("count", .int 0), ("note", .str "")])
    (Dict.ofList [("count", sumNumbers)]) (by decide)

/-- The count is an `int`. -/
def countTypes (key : String) (v : Value) : Prop := key = "count" → ∃ i, v = .int i

theorem countSchema_typed : Typed countSchema countTypes where
  identity d hd _ := validate_ofDefaults hd
  closed k r x a y hr hx ha hy := by
    rintro rfl
    obtain ⟨i, rfl⟩ := hx rfl
    obtain ⟨j, rfl⟩ := ha rfl
    cases hr
    cases hy
    exact ⟨_, rfl⟩

theorem count_commutes : Commutes countSchema countTypes "count" := by
  refine ⟨sumNumbers, fun x a => .int ((number x).getD 0 + (number a).getD 0), rfl, ?_, ?_⟩
  · intro x a hx ha
    obtain ⟨i, rfl⟩ := hx rfl
    obtain ⟨j, rfl⟩ := ha rfl
    rfl
  · intro x a b _ _ _
    simp only [number, Option.getD_some, Value.int.injEq]
    omega

def oneCount : PyDict := Dict.ofList [("count", .int 1), ("note", .str "done")]

def twoCounts : PyDict := Dict.ofList [("count", .int 2)]

theorem counts_merge_in_either_order :
    ∃ s, mergeParallelUpdates countSchema (Dict.ofList [("count", .int 0), ("note", .str "")])
        [oneCount, twoCounts] = .ok s ∧
      mergeParallelUpdates countSchema (Dict.ofList [("count", .int 0), ("note", .str "")])
        [twoCounts, oneCount] = .ok s := by
  have h := merge_ignores_order countSchema countTypes countSchema_typed
    (Dict.ofList [("count", .int 0), ("note", .str "")]) ⟨rfl, ?_⟩ [oneCount, twoCounts] ?_
  · refine (h.1 [twoCounts, oneCount] (.swap ..) ?_).resolve_right ?_
    · intro k hk htwo
      have hfields : countSchema.fields = ["count", "note"] := rfl
      rw [hfields, List.mem_pair] at hk
      rcases hk with rfl | rfl
      · exact count_commutes
      · exact absurd htwo (by decide)
    · rintro ⟨⟨e, he⟩, -⟩
      cases he
  · rintro k v hk rfl
    cases hk
    exact ⟨_, rfl⟩
  · intro u hu k _ v hv
    rintro rfl
    simp only [List.mem_cons, List.not_mem_nil, or_false] at hu
    rcases hu with rfl | rfl
    · cases hv
      exact ⟨_, rfl⟩
    · cases hv
      exact ⟨_, rfl⟩

end orchestra.merging
