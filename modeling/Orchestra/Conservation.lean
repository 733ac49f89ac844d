-- The policy of tiered memory loses no key: what an operation takes out of the hot and the
-- warm segment it reports as evicted, once, or was told to remove.
import Orchestra.Recall

open dicts orchestra.tiers

namespace orchestra.conservation

variable {V : Type}

/-! ## Operations of the policy -/

inductive Operation (V : Type)
  | insert (key : String) (entry : V)
  | access (key : String)
  | remove (key : String)

/-- The policy after an operation, and the evictions that it reports. -/
def operate (p : SLRUPolicy V) : Operation V → SLRUPolicy V × List (String × Tier)
  | .insert key entry => p.insert key entry
  | .access key => p.access key
  | .remove key => (p.remove key, [])

/-- A new policy after the operations. -/
def after (hotMax warmMax : Nat) (operations : List (Operation V)) : SLRUPolicy V :=
  operations.foldl (fun p operation => (operate p operation).1) (.new hotMax warmMax)

/-- The keys that the policy tracks. -/
def tracked (p : SLRUPolicy V) : List String := p.hot.keys ++ p.warm.keys

/-- The keys that go to the cold tier. -/
def coldKeys (evictions : List (String × Tier)) : List String :=
  (evictions.filter (fun e => e.2 = .cold)).map Prod.fst

/-- The key that an operation brings in. -/
def incoming (p : SLRUPolicy V) : Operation V → List String
  | .insert key _ => if key ∈ tracked p then [] else [key]
  | _ => []

/-- The key that an operation takes out. -/
def outgoing (p : SLRUPolicy V) : Operation V → List String
  | .remove key => if key ∈ tracked p then [key] else []
  | _ => []

/-! ## The loops -/

theorem coldKeys_append (es fs : List (String × Tier)) :
    coldKeys (es ++ fs) = coldKeys es ++ coldKeys fs := by
  simp [coldKeys]

/-- Cooling moves keys from one segment to the other. -/
theorem tracked_coolHot (n : Nat) {p : SLRUPolicy V} (h : (tracked p).Nodup) :
    (tracked (p.coolHot n).1).Perm (tracked p) ∧ coldKeys (p.coolHot n).2 = [] := by
  induction n generalizing p with
  | zero => exact ⟨.refl _, rfl⟩
  | succ n ih =>
    unfold SLRUPolicy.coolHot
    split
    · rcases hfirst : p.hot.entries with _ | ⟨⟨k, e⟩, rest⟩
      · exact ⟨.refl _, rfl⟩
      · have hkeys := Dict.keys_tail hfirst
        have hnot : k ∉ p.warm.keys := by
          unfold tracked at h
          rw [hkeys, List.cons_append, List.nodup_cons] at h
          exact fun hmem => h.1 (List.mem_append_right _ hmem)
        have hmoved : (tracked { p with hot := p.hot.tail, warm := p.warm.set k e }).Perm
            (tracked p) := by
          unfold tracked
          rw [hkeys, Dict.keys_set_of_not_mem hnot, ← List.append_assoc]
          exact List.perm_append_singleton k _
        obtain ⟨hrest, hnone⟩ := ih (hmoved.nodup_iff.mpr h)
        exact ⟨hrest.trans hmoved, by simpa [coldKeys] using hnone⟩
    · exact ⟨.refl _, rfl⟩

/-- What is dropped is reported. -/
theorem tracked_dropWarm (n : Nat) (p : SLRUPolicy V) :
    (tracked (p.dropWarm n).1 ++ coldKeys (p.dropWarm n).2).Perm (tracked p) := by
  induction n generalizing p with
  | zero => simp [SLRUPolicy.dropWarm, coldKeys]
  | succ n ih =>
    unfold SLRUPolicy.dropWarm
    split
    · rcases hfirst : p.warm.entries with _ | ⟨⟨k, e⟩, rest⟩
      · simp [coldKeys]
      · have hrest := ih { p with warm := p.warm.tail }
        have hdropped : (tracked p).Perm (k :: tracked { p with warm := p.warm.tail }) := by
          unfold tracked
          rw [Dict.keys_tail hfirst]
          exact List.perm_middle
        have hreport : coldKeys ((k, .cold) :: (SLRUPolicy.dropWarm n { p with warm :=
            p.warm.tail }).2) = k :: coldKeys (SLRUPolicy.dropWarm n { p with warm :=
            p.warm.tail }).2 := by
          simp [coldKeys]
        simp only [hreport]
        exact List.perm_middle.trans ((hrest.cons k).trans hdropped.symm)
    · simp [coldKeys]

theorem tracked_evictionsDue {p : SLRUPolicy V} (h : (tracked p).Nodup) :
    (tracked p.evictionsDue.1 ++ coldKeys p.evictionsDue.2).Perm (tracked p) := by
  unfold SLRUPolicy.evictionsDue
  obtain ⟨hcooled, hnone⟩ := tracked_coolHot p.hot.size h
  simp only [coldKeys_append, hnone, List.nil_append]
  exact (tracked_dropWarm _ _).trans hcooled

/-! ## The operations -/

/-- The segments of a policy that fits have no key in common. -/
theorem nodup_tracked {p : SLRUPolicy V} (h : recall.Fits p) : (tracked p).Nodup := by
  refine List.nodup_append.mpr ⟨p.hot.nodup, p.warm.nodup, ?_⟩
  rintro k hhot j hwarm rfl
  rcases h.apart k with hnone | hnone
  · exact (Dict.get?_eq_none_iff p.hot k).mp hnone hhot
  · exact (Dict.get?_eq_none_iff p.warm k).mp hnone hwarm

/-- The key is in neither segment. -/
theorem not_mem_tracked {p : SLRUPolicy V} {key : String} (hhot : p.hot.get? key = none)
    (hwarm : p.warm.get? key = none) : key ∉ tracked p := by
  intro hmem
  rcases List.mem_append.mp hmem with h | h
  · exact recall.not_mem_keys_of_get? hhot h
  · exact recall.not_mem_keys_of_get? hwarm h

/-- No operation brings in a key that is tracked already. -/
theorem nodup_incoming {p : SLRUPolicy V} (h : recall.Fits p) (operation : Operation V) :
    (tracked p ++ incoming p operation).Nodup := by
  cases operation with
  | insert new entry =>
    simp only [incoming]
    split
    · simpa using nodup_tracked h
    · rename_i hnot
      refine List.nodup_append.mpr ⟨nodup_tracked h, List.nodup_singleton new, ?_⟩
      rintro key hkey j hj rfl
      exact hnot (List.mem_singleton.mp hj ▸ hkey)
  | access key => simpa [incoming] using nodup_tracked h
  | remove key => simpa [incoming] using nodup_tracked h

/-- The keys before and after an operation, with those that it brings in and takes out. -/
def Conserves (p : SLRUPolicy V) (operation : Operation V) : Prop :=
  (tracked (operate p operation).1 ++
    (coldKeys (operate p operation).2 ++ outgoing p operation)).Perm
      (tracked p ++ incoming p operation)

variable {p : SLRUPolicy V}

theorem conserves_insert (h : recall.Fits p) (key : String) (entry : V) :
    Conserves p (.insert key entry) := by
  unfold Conserves
  simp only [operate, outgoing, incoming, List.append_nil]
  unfold SLRUPolicy.insert
  rcases hhot : p.hot.get? key with _ | old
  · rcases hwarm : p.warm.get? key with _ | old
    · have hnot := not_mem_tracked hhot hwarm
      have hkeys := Dict.keys_set_of_not_mem (recall.not_mem_keys_of_get? hwarm) entry
      have hlonger : tracked { p with warm := p.warm.set key entry } = tracked p ++ [key] := by
        unfold tracked
        rw [hkeys, List.append_assoc]
      have hnodup : (tracked { p with warm := p.warm.set key entry }).Nodup := by
        rw [hlonger]
        simpa [incoming, hnot] using nodup_incoming h (.insert key entry)
      simpa [hnot, hlonger] using tracked_evictionsDue hnodup
    · have hmem : key ∈ p.warm.keys := recall.mem_keys_of_get? hwarm
      simp [tracked, coldKeys, hmem, Dict.keys_set_of_mem hmem]
  · have hmem : key ∈ p.hot.keys := recall.mem_keys_of_get? hhot
    simp [tracked, coldKeys, hmem, Dict.keys_set_of_mem hmem]

theorem conserves_access (h : recall.Fits p) (key : String) : Conserves p (.access key) := by
  unfold Conserves
  simp only [operate, outgoing, incoming, List.append_nil]
  unfold SLRUPolicy.access
  rcases hhot : p.hot.get? key with _ | entry
  · rcases hwarm : p.warm.get? key with _ | entry
    · simp [coldKeys]
    · have hmem : key ∈ p.warm.keys := recall.mem_keys_of_get? hwarm
      have hhotKeys := Dict.keys_set_of_not_mem (recall.not_mem_keys_of_get? hhot) entry
      have hmoved : (tracked { p with warm := p.warm.erase key, hot := p.hot.set key entry }).Perm
          (tracked p) := by
        unfold tracked
        rw [hhotKeys, List.append_assoc]
        exact (Dict.perm_keys_erase hmem).symm.append_left _
      exact (tracked_evictionsDue (hmoved.nodup_iff.mpr (nodup_tracked h))).trans hmoved
  · have hmem : key ∈ p.hot.keys := recall.mem_keys_of_get? hhot
    have hgone : key ∉ (p.hot.erase key).keys := by simp [Dict.keys_erase]
    have hturned : ((p.hot.erase key).set key entry).keys.Perm p.hot.keys := by
      rw [Dict.keys_set_of_not_mem hgone]
      exact (List.perm_append_singleton key _).trans (Dict.perm_keys_erase hmem).symm
    simpa [tracked, coldKeys] using hturned.append_right p.warm.keys

theorem conserves_remove (h : recall.Fits p) (key : String) : Conserves p (.remove key) := by
  unfold Conserves
  simp only [operate, outgoing, incoming, List.append_nil]
  rw [show coldKeys [] = [] from rfl, List.nil_append]
  unfold SLRUPolicy.remove tracked
  simp only [List.mem_append]
  rcases hhot : p.hot.get? key with _ | entry
  · have hnotHot := recall.not_mem_keys_of_get? hhot
    rcases hwarm : p.warm.get? key with _ | entry
    · have hnotWarm := recall.not_mem_keys_of_get? hwarm
      simp [hnotHot, hnotWarm, Dict.keys_erase_of_not_mem]
    · have hmem : key ∈ p.warm.keys := recall.mem_keys_of_get? hwarm
      simp only [hnotHot, hmem, or_true, if_true, Dict.keys_erase_of_not_mem hnotHot,
        List.append_assoc]
      exact ((List.perm_append_singleton key _).trans
        (Dict.perm_keys_erase hmem).symm).append_left _
  · have hmem : key ∈ p.hot.keys := recall.mem_keys_of_get? hhot
    have hnotWarm : key ∉ p.warm.keys := by
      rcases h.apart key with hnone | hnone
      · rw [hhot] at hnone
        cases hnone
      · exact recall.not_mem_keys_of_get? hnone
    simp only [hmem, true_or, if_true, Dict.keys_erase_of_not_mem hnotWarm]
    refine (List.perm_append_singleton key _).trans ?_
    rw [← List.cons_append]
    exact (Dict.perm_keys_erase hmem).symm.append_right _

theorem conserves (h : recall.Fits p) (operation : Operation V) : Conserves p operation := by
  cases operation with
  | insert key entry => exact conserves_insert h key entry
  | access key => exact conserves_access h key
  | remove key => exact conserves_remove h key

/-! ## Any sequence of operations -/

/-- Two policies with the same limits. -/
def SameLimits (p q : SLRUPolicy V) : Prop := p.hotMax = q.hotMax ∧ p.warmMax = q.warmMax

theorem limits_coolHot (n : Nat) (p : SLRUPolicy V) : SameLimits (p.coolHot n).1 p := by
  induction n generalizing p with
  | zero => exact ⟨rfl, rfl⟩
  | succ n ih =>
    unfold SLRUPolicy.coolHot
    split
    · split
      · exact ⟨rfl, rfl⟩
      · exact ih _
    · exact ⟨rfl, rfl⟩

theorem limits_dropWarm (n : Nat) (p : SLRUPolicy V) : SameLimits (p.dropWarm n).1 p := by
  induction n generalizing p with
  | zero => exact ⟨rfl, rfl⟩
  | succ n ih =>
    unfold SLRUPolicy.dropWarm
    split
    · split
      · exact ⟨rfl, rfl⟩
      · exact ih _
    · exact ⟨rfl, rfl⟩

theorem limits_evictionsDue (p : SLRUPolicy V) : SameLimits p.evictionsDue.1 p := by
  obtain ⟨hhot, hwarm⟩ := limits_coolHot p.hot.size p
  obtain ⟨hhot', hwarm'⟩ := limits_dropWarm (p.coolHot p.hot.size).1.warm.size
    (p.coolHot p.hot.size).1
  exact ⟨hhot'.trans hhot, hwarm'.trans hwarm⟩

theorem limits_operate (p : SLRUPolicy V) (operation : Operation V) :
    SameLimits (operate p operation).1 p := by
  cases operation with
  | insert key entry =>
    simp only [operate, SLRUPolicy.insert]
    split
    · exact ⟨rfl, rfl⟩
    · split
      · exact ⟨rfl, rfl⟩
      · exact limits_evictionsDue _
  | access key =>
    simp only [operate, SLRUPolicy.access]
    split
    · exact ⟨rfl, rfl⟩
    · split
      · exact limits_evictionsDue _
      · exact ⟨rfl, rfl⟩
  | remove key => exact ⟨rfl, rfl⟩

theorem fits_operate (h : recall.Fits p) (operation : Operation V) :
    recall.Fits (operate p operation).1 := by
  cases operation with
  | insert key entry => exact (recall.inserted h key entry).fits
  | access key => exact (recall.accessed h key).fits
  | remove key => exact recall.fits_remove h key

theorem after_snoc (hotMax warmMax : Nat) (operations : List (Operation V))
    (operation : Operation V) :
    after hotMax warmMax (operations ++ [operation]) =
      (operate (after hotMax warmMax operations) operation).1 := by
  simp [after, List.foldl_append]

/-- A policy that fits, with the limits that it was made with. -/
theorem after_fits (hotMax warmMax : Nat) (operations : List (Operation V)) :
    recall.Fits (after hotMax warmMax operations) ∧
      SameLimits (after hotMax warmMax operations) (.new hotMax warmMax) := by
  induction operations using List.reverseRecOn with
  | nil => exact ⟨recall.fits_new hotMax warmMax, rfl, rfl⟩
  | append_singleton operations operation ih =>
    rw [after_snoc]
    obtain ⟨hfits, hhot, hwarm⟩ := ih
    obtain ⟨hhot', hwarm'⟩ := limits_operate (after hotMax warmMax operations) operation
    exact ⟨fits_operate hfits operation, hhot'.trans hhot, hwarm'.trans hwarm⟩

/-- What an operation leaves: segments within their limits that have no key in common, and
an account of every key that was tracked or brought in. -/
structure LosesNoKey (hotMax warmMax : Nat) (p : SLRUPolicy V) (operation : Operation V) :
    Prop where
  hot : (operate p operation).1.hot.size ≤ hotMax
  warm : (operate p operation).1.warm.size ≤ warmMax
  apart : ∀ key ∈ (operate p operation).1.hot.keys, key ∉ (operate p operation).1.warm.keys
  once : (coldKeys (operate p operation).2).Nodup
  conserved : Conserves p operation

/-- Whatever the limits, no operation of any sequence loses a key. -/
theorem policy_loses_no_key (hotMax warmMax : Nat) (operations : List (Operation V))
    (operation : Operation V) :
    LosesNoKey hotMax warmMax (after hotMax warmMax operations) operation := by
  obtain ⟨hfits, -, -⟩ := after_fits hotMax warmMax operations
  obtain ⟨hfits', hhot, hwarm⟩ := after_fits hotMax warmMax (operations ++ [operation])
  rw [after_snoc] at hfits' hhot hwarm
  have hconserved := conserves hfits operation
  refine ⟨?_, ?_, ?_, ?_, hconserved⟩
  · exact le_of_le_of_eq hfits'.hot hhot
  · exact le_of_le_of_eq hfits'.warm hwarm
  · intro key hkey hwarmKey
    exact (List.nodup_append.mp (nodup_tracked hfits')).2.2 key hkey key hwarmKey rfl
  · have hall := hconserved.nodup_iff.mpr (nodup_incoming hfits operation)
    exact (List.nodup_append.mp (List.nodup_append.mp hall).2.1).1

end orchestra.conservation
