-- What tiered memory recalls. With a warm backend every value is below the policy,
-- so an eviction loses nothing; without one a value that the policy drops is gone
-- unless the cold backend has it already.
import Orchestra.Tiers

open dicts machine orchestra.tiers

namespace orchestra.recall

variable {V : Type}

/-! ## The policy -/

/-- The value that the policy has for a key. -/
def get? (p : SLRUPolicy V) (key : String) : Option V :=
  match p.hot.get? key with
  | some v => some v
  | none => p.warm.get? key

/-- Both segments fit, and no key is in both. -/
structure Fits (p : SLRUPolicy V) : Prop where
  hot : p.hot.size ≤ p.hotMax
  warm : p.warm.size ≤ p.warmMax
  apart : ∀ k, p.hot.get? k = none ∨ p.warm.get? k = none

theorem fits_new (hotMax warmMax : Nat) : Fits (SLRUPolicy.new hotMax warmMax : SLRUPolicy V) where
  hot := Nat.zero_le _
  warm := Nat.zero_le _
  apart _ := Or.inl rfl

theorem get?_none_iff {p : SLRUPolicy V} {k : String} :
    get? p k = none ↔ p.hot.get? k = none ∧ p.warm.get? k = none := by
  unfold get?
  rcases p.hot.get? k with _ | v <;> simp

theorem get?_of_warm {p : SLRUPolicy V} (h : Fits p) {k : String} {v : V}
    (hk : p.warm.get? k = some v) : get? p k = some v := by
  unfold get?
  rcases h.apart k with hnone | hnone
  · rw [hnone]
    exact hk
  · rw [hk] at hnone
    cases hnone

/-! ## The loops -/

theorem coolHot_of_fits {p : SLRUPolicy V} (h : p.hot.size ≤ p.hotMax) (n : Nat) :
    p.coolHot n = (p, []) := by
  cases n with
  | zero => rfl
  | succ n => rw [SLRUPolicy.coolHot, if_neg (by omega)]

theorem dropWarm_of_fits {p : SLRUPolicy V} (h : p.warm.size ≤ p.warmMax) (n : Nat) :
    p.dropWarm n = (p, []) := by
  cases n with
  | zero => rfl
  | succ n => rw [SLRUPolicy.dropWarm, if_neg (by omega)]

theorem evictionsDue_of_fits {p : SLRUPolicy V} (hhot : p.hot.size ≤ p.hotMax)
    (hwarm : p.warm.size ≤ p.warmMax) : p.evictionsDue = (p, []) := by
  unfold SLRUPolicy.evictionsDue
  simp only [coolHot_of_fits hhot, dropWarm_of_fits hwarm, List.append_nil]

/-- One warm entry too many: the oldest one is dropped. -/
theorem evictionsDue_of_full {p : SLRUPolicy V} (hhot : p.hot.size ≤ p.hotMax)
    (hwarm : p.warm.size = p.warmMax + 1) {x : String} {w : V} {rest : List (String × V)}
    (hfirst : p.warm.entries = (x, w) :: rest) :
    p.evictionsDue = ({ p with warm := p.warm.tail }, [(x, .cold)]) := by
  have htail : p.warm.tail.size ≤ p.warmMax := by
    rw [Dict.size_tail]
    omega
  have hdrop : p.dropWarm p.warm.size = ({ p with warm := p.warm.tail }, [(x, .cold)]) := by
    rw [hwarm, SLRUPolicy.dropWarm, if_pos (by omega), hfirst]
    have hrest : SLRUPolicy.dropWarm p.warmMax { p with warm := p.warm.tail } =
        ({ p with warm := p.warm.tail }, []) := dropWarm_of_fits htail _
    simp only [hrest]
  unfold SLRUPolicy.evictionsDue
  simp only [coolHot_of_fits hhot, hdrop, List.nil_append]

/-- One hot entry too many, and room for it below: the oldest one is cooled. -/
theorem evictionsDue_of_hot {p : SLRUPolicy V} (hhot : p.hot.size = p.hotMax + 1) {x : String}
    {w : V} {rest : List (String × V)} (hfirst : p.hot.entries = (x, w) :: rest)
    (hwarm : (p.warm.set x w).size ≤ p.warmMax) :
    p.evictionsDue = ({ p with hot := p.hot.tail, warm := p.warm.set x w }, [(x, .warm)]) := by
  have htail : p.hot.tail.size ≤ p.hotMax := by
    rw [Dict.size_tail]
    omega
  have hcool : p.coolHot p.hot.size =
      ({ p with hot := p.hot.tail, warm := p.warm.set x w }, [(x, .warm)]) := by
    rw [hhot, SLRUPolicy.coolHot, if_pos (by omega), hfirst]
    have hrest : SLRUPolicy.coolHot p.hotMax
        { p with hot := p.hot.tail, warm := p.warm.set x w } =
        ({ p with hot := p.hot.tail, warm := p.warm.set x w }, []) := coolHot_of_fits htail _
    simp only [hrest]
  have hdrop : SLRUPolicy.dropWarm (p.warm.set x w).size
      { p with hot := p.hot.tail, warm := p.warm.set x w } =
      ({ p with hot := p.hot.tail, warm := p.warm.set x w }, []) := dropWarm_of_fits hwarm _
  unfold SLRUPolicy.evictionsDue
  simp only [hcool, hdrop, List.append_nil]

/-! ## An access -/

theorem not_mem_keys_of_get? {d : Dict String V} {k : String} (h : d.get? k = none) :
    k ∉ d.keys :=
  (Dict.get?_eq_none_iff d k).mp h

theorem mem_keys_of_get? {d : Dict String V} {k : String} {v : V} (h : d.get? k = some v) :
    k ∈ d.keys :=
  (Dict.mem_keys_iff d k).mpr ⟨v, h⟩

/-- What an access leaves: the same values in the policy, and nothing dropped. -/
structure Accessed (p : SLRUPolicy V) (r : SLRUPolicy V × List (String × Tier)) : Prop where
  fits : Fits r.1
  same : ∀ j, get? r.1 j = get? p j
  kept : ∀ e ∈ r.2, e.2 ≠ .cold

theorem accessed_hot {p : SLRUPolicy V} (h : Fits p) {key : String} {v : V}
    (hkey : p.hot.get? key = some v) : Accessed p (p.access key) := by
  have haccess : p.access key = ({ p with hot := (p.hot.erase key).set key v }, []) := by
    unfold SLRUPolicy.access
    rw [hkey]
  have hget : ∀ j, ((p.hot.erase key).set key v).get? j = p.hot.get? j := by
    intro j
    rw [Dict.get?_set, Dict.get?_erase]
    by_cases hj : key = j
    · rw [if_pos hj, ← hj, hkey]
    · rw [if_neg hj, if_neg hj]
  rw [haccess]
  refine ⟨⟨?_, h.warm, ?_⟩, ?_, by simp⟩
  · have hnot : key ∉ (p.hot.erase key).keys :=
      not_mem_keys_of_get? (by rw [Dict.get?_erase, if_pos rfl])
    have hsize := Dict.size_erase_of_mem (mem_keys_of_get? hkey)
    have hfits := h.hot
    simp only [Dict.size_set_of_not_mem hnot]
    omega
  · intro k
    simp only [hget]
    exact h.apart k
  · intro j
    unfold get?
    simp only [hget]

theorem accessed_warm {p : SLRUPolicy V} (h : Fits p) {key : String} {v : V}
    (hhot : p.hot.get? key = none) (hkey : p.warm.get? key = some v) :
    Accessed p (p.access key) := by
  have haccess : p.access key =
      SLRUPolicy.evictionsDue { p with warm := p.warm.erase key, hot := p.hot.set key v } := by
    unfold SLRUPolicy.access
    rw [hhot, hkey]
  have hhotSize := Dict.size_set_of_not_mem (not_mem_keys_of_get? hhot) v
  have hwarmSize := Dict.size_erase_of_mem (mem_keys_of_get? hkey)
  have hhotFits := h.hot
  have hwarmFits := h.warm
  have hsame : ∀ j, get? { p with warm := p.warm.erase key, hot := p.hot.set key v } j =
      get? p j := by
    intro j
    unfold get?
    simp only [Dict.get?_set, Dict.get?_erase]
    by_cases hj : key = j
    · subst hj
      simp [hhot, hkey]
    · simp [hj]
  have hapart : ∀ j, (p.hot.set key v).get? j = none ∨ (p.warm.erase key).get? j = none := by
    intro j
    rw [Dict.get?_set, Dict.get?_erase]
    by_cases hj : key = j
    · simp [hj]
    · simpa [hj] using h.apart j
  rw [haccess]
  by_cases hroom : p.hot.size < p.hotMax
  · have hfits : Fits { p with warm := p.warm.erase key, hot := p.hot.set key v } :=
      ⟨by simp only; omega, by simp only; omega, hapart⟩
    rw [evictionsDue_of_fits hfits.hot hfits.warm]
    exact ⟨hfits, hsame, by simp⟩
  · rcases hfirst : (p.hot.set key v).entries with _ | ⟨⟨x, w⟩, rest⟩
    · have hzero : (p.hot.set key v).size = 0 := by
        unfold Dict.size
        rw [hfirst]
        rfl
      omega
    have hx := Dict.get?_cons hfirst
    have hxWarm : (p.warm.erase key).get? x = none := by
      rcases hapart x with hnone | hnone
      · rw [hx] at hnone
        cases hnone
      · exact hnone
    have hsetSize := Dict.size_set_of_not_mem (not_mem_keys_of_get? hxWarm) w
    have htail := Dict.get?_tail hfirst
    rw [evictionsDue_of_hot (by simp only; omega) hfirst (by simp only; omega)]
    refine ⟨⟨?_, ?_, ?_⟩, ?_, by simp⟩
    · simp only [Dict.size_tail]
      omega
    · simp only
      omega
    · intro j
      simp only [htail, Dict.get?_set _ x]
      by_cases hj : x = j
      · simp [hj]
      · simpa [hj] using hapart j
    · intro j
      rw [← hsame]
      unfold get?
      simp only [htail, Dict.get?_set _ x]
      by_cases hj : x = j
      · subst hj
        simp [hx]
      · simp [hj]

theorem accessed {p : SLRUPolicy V} (h : Fits p) (key : String) : Accessed p (p.access key) := by
  rcases hhot : p.hot.get? key with _ | v
  · rcases hwarm : p.warm.get? key with _ | v
    · have haccess : p.access key = (p, []) := by
        unfold SLRUPolicy.access
        rw [hhot, hwarm]
      rw [haccess]
      exact ⟨h, fun j => rfl, by simp⟩
    · exact accessed_warm h hhot hwarm
  · exact accessed_hot h hhot

/-! ## An insertion -/

/-- The entry that the policy drops for a new one: the oldest of the warm segment
and the new one, when that segment is full. -/
def dropped (p : SLRUPolicy V) (key : String) (value : V) : Option (String × V) :=
  if (get? p key).isNone ∧ p.warmMax ≤ p.warm.size then (p.warm.entries ++ [(key, value)]).head?
  else none

/-- What an insertion leaves: the new value, and all others but the dropped one. -/
structure Inserted (p : SLRUPolicy V) (key : String) (value : V)
    (r : SLRUPolicy V × List (String × Tier)) : Prop where
  fits : Fits r.1
  some_of : ∀ j w, get? r.1 j = some w → (j = key ∧ w = value) ∨ (j ≠ key ∧ get? p j = some w)
  none_of : ∀ j, get? r.1 j = none →
    (j ≠ key ∧ get? p j = none) ∨ ∃ w, dropped p key value = some (j, w)

theorem inserted_in_place {p : SLRUPolicy V} {key : String} {value : V}
    {r : SLRUPolicy V × List (String × Tier)} (hfits : Fits r.1)
    (hget : ∀ j, get? r.1 j = if key = j then some value else get? p j) :
    Inserted p key value r where
  fits := hfits
  some_of j w hj := by
    rw [hget] at hj
    by_cases hkey : key = j
    · rw [if_pos hkey] at hj
      exact Or.inl ⟨hkey.symm, (Option.some.inj hj).symm⟩
    · rw [if_neg hkey] at hj
      exact Or.inr ⟨fun h => hkey h.symm, hj⟩
  none_of j hj := by
    rw [hget] at hj
    by_cases hkey : key = j
    · rw [if_pos hkey] at hj
      cases hj
    · rw [if_neg hkey] at hj
      exact Or.inl ⟨fun h => hkey h.symm, hj⟩

theorem inserted_hot {p : SLRUPolicy V} (h : Fits p) {key : String} {old : V} (value : V)
    (hkey : p.hot.get? key = some old) : Inserted p key value (p.insert key value) := by
  have hinsert : p.insert key value = ({ p with hot := p.hot.set key value }, []) := by
    unfold SLRUPolicy.insert
    rw [hkey]
    rfl
  rw [hinsert]
  apply inserted_in_place
  · refine ⟨?_, h.warm, ?_⟩
    · simp only [Dict.size_set_of_mem (mem_keys_of_get? hkey)]
      exact h.hot
    · intro j
      rw [Dict.get?_set]
      by_cases hj : key = j
      · subst hj
        rcases h.apart key with hnone | hnone
        · rw [hkey] at hnone
          cases hnone
        · exact Or.inr hnone
      · rw [if_neg hj]
        exact h.apart j
  · intro j
    unfold get?
    simp only [Dict.get?_set]
    by_cases hj : key = j
    · simp [hj]
    · simp [hj]

theorem inserted_warm {p : SLRUPolicy V} (h : Fits p) {key : String} {old : V} (value : V)
    (hhot : p.hot.get? key = none) (hkey : p.warm.get? key = some old) :
    Inserted p key value (p.insert key value) := by
  have hinsert : p.insert key value = ({ p with warm := p.warm.set key value }, []) := by
    unfold SLRUPolicy.insert
    rw [hhot, hkey]
    rfl
  rw [hinsert]
  apply inserted_in_place
  · refine ⟨h.hot, ?_, ?_⟩
    · simp only [Dict.size_set_of_mem (mem_keys_of_get? hkey)]
      exact h.warm
    · intro j
      rw [Dict.get?_set]
      by_cases hj : key = j
      · subst hj
        exact Or.inl hhot
      · rw [if_neg hj]
        exact h.apart j
  · intro j
    unfold get?
    simp only [Dict.get?_set]
    by_cases hj : key = j
    · subst hj
      simp [hhot]
    · simp [hj]

theorem inserted_new {p : SLRUPolicy V} (h : Fits p) {key : String} (value : V)
    (hhot : p.hot.get? key = none) (hkey : p.warm.get? key = none) :
    Inserted p key value (p.insert key value) := by
  have hinsert : p.insert key value =
      SLRUPolicy.evictionsDue { p with warm := p.warm.set key value } := by
    unfold SLRUPolicy.insert
    rw [hhot, hkey]
    rfl
  have hnot := not_mem_keys_of_get? hkey
  have hsize := Dict.size_set_of_not_mem hnot value
  have hwarm := h.warm
  have hapart : ∀ j, p.hot.get? j = none ∨ (p.warm.set key value).get? j = none := by
    intro j
    rw [Dict.get?_set]
    by_cases hj : key = j
    · subst hj
      exact Or.inl hhot
    · rw [if_neg hj]
      exact h.apart j
  have hget : ∀ j, get? { p with warm := p.warm.set key value } j =
      if key = j then some value else get? p j := by
    intro j
    unfold get?
    simp only [Dict.get?_set]
    by_cases hj : key = j
    · subst hj
      simp [hhot]
    · simp [hj]
  rw [hinsert]
  by_cases hroom : p.warm.size < p.warmMax
  · have hfits : Fits { p with warm := p.warm.set key value } :=
      ⟨h.hot, by simp only; omega, hapart⟩
    rw [evictionsDue_of_fits hfits.hot hfits.warm]
    exact inserted_in_place hfits hget
  · have hentries := Dict.entries_set_of_not_mem hnot value
    rcases hfirst : (p.warm.set key value).entries with _ | ⟨⟨x, w⟩, rest⟩
    · rw [hfirst] at hentries
      simp at hentries
    have hdropped : dropped p key value = some (x, w) := by
      have hcond : (get? p key).isNone ∧ p.warmMax ≤ p.warm.size := by
        rw [get?_none_iff.mpr ⟨hhot, hkey⟩]
        exact ⟨rfl, by omega⟩
      unfold dropped
      rw [if_pos hcond, ← hentries, hfirst]
      rfl
    have hx := Dict.get?_cons hfirst
    have hxHot : p.hot.get? x = none := by
      rcases hapart x with hnone | hnone
      · exact hnone
      · rw [hx] at hnone
        cases hnone
    have htail := Dict.get?_tail hfirst
    have hleft : ∀ j, get? { p with warm := (p.warm.set key value).tail } j =
        if x = j then none else if key = j then some value else get? p j := by
      intro j
      rw [← hget]
      unfold get?
      simp only [htail]
      by_cases hj : x = j
      · subst hj
        simp [hxHot]
      · simp [hj]
    have hfull : (p.warm.set key value).size = p.warmMax + 1 := by omega
    have hevict : SLRUPolicy.evictionsDue { p with warm := p.warm.set key value } =
        ({ p with warm := (p.warm.set key value).tail }, [(x, .cold)]) :=
      evictionsDue_of_full (p := { p with warm := p.warm.set key value }) h.hot hfull hfirst
    rw [hevict]
    refine ⟨⟨h.hot, ?_, ?_⟩, ?_, ?_⟩
    · simp only [Dict.size_tail]
      omega
    · intro j
      simp only [htail]
      by_cases hj : x = j
      · simp [hj]
      · simpa [hj] using hapart j
    · intro j u hj
      rw [hleft] at hj
      by_cases hxj : x = j
      · rw [if_pos hxj] at hj
        cases hj
      · rw [if_neg hxj] at hj
        by_cases hkj : key = j
        · rw [if_pos hkj] at hj
          exact Or.inl ⟨hkj.symm, (Option.some.inj hj).symm⟩
        · rw [if_neg hkj] at hj
          exact Or.inr ⟨fun e => hkj e.symm, hj⟩
    · intro j hj
      rw [hleft] at hj
      by_cases hxj : x = j
      · subst hxj
        exact Or.inr ⟨w, hdropped⟩
      · rw [if_neg hxj] at hj
        by_cases hkj : key = j
        · rw [if_pos hkj] at hj
          cases hj
        · rw [if_neg hkj] at hj
          exact Or.inl ⟨fun e => hkj e.symm, hj⟩

theorem inserted {p : SLRUPolicy V} (h : Fits p) (key : String) (value : V) :
    Inserted p key value (p.insert key value) := by
  rcases hhot : p.hot.get? key with _ | old
  · rcases hwarm : p.warm.get? key with _ | old
    · exact inserted_new h value hhot hwarm
    · exact inserted_warm h value hhot hwarm
  · exact inserted_hot h value hhot

/-! ## The map that the memory holds -/

/-- `recalled` is what the memory holds: the policy has nothing else, and what it
does not have is below it. With a warm backend all of it is below. -/
structure Holds (m : TieredMemoryManager V) (recalled : Backend V) : Prop where
  fits : Fits m.policy
  held : ∀ k v, get? m.policy k = some v → recalled k = some v
  backed : ∀ k, m.warmBackend.isSome = true ∨ get? m.policy k = none → m.below k = recalled k

theorem look_eq (m : TieredMemoryManager V) (k : String) :
    m.look k = match get? m.policy k with
      | some v => some v
      | none => m.below k := by
  unfold TieredMemoryManager.look get?
  rcases m.policy.hot.get? k with _ | v
  · rcases m.policy.warm.get? k with _ | v
    · rfl
    · rfl
  · rfl

theorem Holds.look {m : TieredMemoryManager V} {recalled : Backend V} (h : Holds m recalled)
    (k : String) : m.look k = recalled k := by
  rw [look_eq]
  rcases hk : get? m.policy k with _ | v
  · exact h.backed k (Or.inr hk)
  · exact (h.held k v hk).symm

theorem get?_remove (p : SLRUPolicy V) (key j : String) :
    get? (p.remove key) j = if key = j then none else get? p j := by
  unfold get? SLRUPolicy.remove
  simp only [Dict.get?_erase]
  by_cases hj : key = j
  · simp [hj]
  · simp [hj]

theorem fits_remove {p : SLRUPolicy V} (h : Fits p) (key : String) : Fits (p.remove key) where
  hot := Nat.le_trans (Dict.size_erase_le _ _) h.hot
  warm := Nat.le_trans (Dict.size_erase_le _ _) h.warm
  apart j := by
    unfold SLRUPolicy.remove
    simp only [Dict.get?_erase]
    by_cases hj : key = j
    · simp [hj]
    · simpa [hj] using h.apart j

/-- A demotion writes what the memory recalls to the cold backend. -/
theorem holds_demote {m : TieredMemoryManager V} {recalled : Backend V} (h : Holds m recalled)
    (key : String) (toTier : Tier) : Holds (m.demote key toTier) recalled := by
  unfold TieredMemoryManager.demote
  split
  · rename_i b hcold
    rcases hlook : m.look key with _ | v
    · exact h
    · rw [h.look] at hlook
      refine ⟨fits_remove h.fits key, ?_, ?_⟩
      · intro k w hk
        simp only [get?_remove] at hk
        by_cases hkey : key = k
        · rw [if_pos hkey] at hk
          cases hk
        · rw [if_neg hkey] at hk
          exact h.held k w hk
      · intro k hk
        by_cases hkey : k = key
        · subst hkey
          rw [hlook]
          unfold TieredMemoryManager.below
          rcases m.warmBackend with _ | w
          · simp [Backend.put]
          · simp [Backend.delete, Backend.put]
        · have hbelow : TieredMemoryManager.below
              { warmBackend := m.warmBackend.map (fun w => w.delete key)
                coldBackend := some (b.put key v)
                policy := m.policy.remove key } k = m.below k := by
            unfold TieredMemoryManager.below
            rw [hcold]
            rcases m.warmBackend with _ | w
            · simp [Backend.put, hkey]
            · simp [Backend.delete, Backend.put, hkey]
          rw [hbelow]
          apply h.backed k
          rcases hk with hwarm | hnone
          · left
            simpa using hwarm
          · right
            rwa [get?_remove, if_neg (fun e => hkey e.symm)] at hnone
  · exact h

theorem holds_handleEvictions {m : TieredMemoryManager V} {recalled : Backend V}
    (h : Holds m recalled) (evictions : List (String × Tier)) :
    Holds (m.handleEvictions evictions) recalled := by
  unfold TieredMemoryManager.handleEvictions
  induction evictions generalizing m with
  | nil => exact h
  | cons e rest ih =>
    apply ih
    by_cases he : e.2 = .cold
    · simp only [if_pos he]
      exact holds_demote h e.1 .cold
    · simp only [if_neg he]
      exact h

theorem below_setWarm (m : TieredMemoryManager V) (key : String) (value : V) (k : String) :
    (m.setWarm key value).below k =
      if m.warmBackend.isSome = true ∧ k = key then some value else m.below k := by
  unfold TieredMemoryManager.setWarm TieredMemoryManager.below
  rcases m.warmBackend with _ | w
  · rfl
  · by_cases hkey : k = key
    · simp [Backend.put, hkey]
    · simp [Backend.put, hkey]

theorem isSome_setWarm (m : TieredMemoryManager V) (key : String) (value : V) :
    (m.setWarm key value).warmBackend.isSome = m.warmBackend.isSome := by
  simp [TieredMemoryManager.setWarm]

theorem holds_setWarm {m : TieredMemoryManager V} {recalled : Backend V} (h : Holds m recalled)
    {key : String} {value : V} (hvalue : recalled key = some value) :
    Holds (m.setWarm key value) recalled where
  fits := h.fits
  held := h.held
  backed k hk := by
    rw [isSome_setWarm] at hk
    rw [below_setWarm]
    by_cases hhere : m.warmBackend.isSome = true ∧ k = key
    · rw [if_pos hhere, hhere.2, hvalue]
    · rw [if_neg hhere]
      exact h.backed k hk

/-! ## One call -/

/-- The entry that the policy drops for a new one is in the cold backend. -/
def DroppedIsCold (m : TieredMemoryManager V) (key : String) (value : V) : Prop :=
  ∀ x w, dropped m.policy key value = some (x, w) →
    m.coldBackend.bind (fun b => b x) = some w

/-- There is a warm backend, or what the call drops from the policy is in the cold
one. Only a store and a retrieve that finds its value in the cold backend drop
anything. -/
def LosesNothing (m : TieredMemoryManager V) (c : MemoryCall V) : Prop :=
  m.warmBackend.isSome = true ∨
    match c with
    | .store key value => DroppedIsCold m key value
    | .retrieve key true => ∀ value, m.below key = some value → DroppedIsCold m key value
    | .promote key .hot => ∀ value, m.below key = some value → DroppedIsCold m key value
    | _ => True

theorem below_without_warm {m : TieredMemoryManager V} (h : ¬ m.warmBackend.isSome = true)
    (k : String) : m.below k = m.coldBackend.bind (fun b => b k) := by
  unfold TieredMemoryManager.below
  rw [Option.not_isSome_iff_eq_none.mp h]
  rfl

/-- An entry that is dropped was in the policy, or is the new one. -/
theorem dropped_cases {p : SLRUPolicy V} (h : Fits p) {key x : String} {value w : V}
    (hdropped : dropped p key value = some (x, w)) :
    (x = key ∧ w = value) ∨ (x ≠ key ∧ get? p x = some w) := by
  unfold dropped at hdropped
  by_cases hcond : (get? p key).isNone ∧ p.warmMax ≤ p.warm.size
  · rw [if_pos hcond] at hdropped
    have hmem := List.mem_of_head? hdropped
    rcases List.mem_append.mp hmem with hmem | hmem
    · have hx := get?_of_warm h ((Dict.mem_entries_iff _ _ _).mp hmem)
      right
      refine ⟨?_, hx⟩
      intro hkey
      subst hkey
      rw [hx] at hcond
      simp at hcond
    · left
      simpa using hmem
  · rw [if_neg hcond] at hdropped
    cases hdropped

/-- A policy that an insertion left, over backends that have the new value where
there is a warm one. -/
theorem holds_inserted {m m' : TieredMemoryManager V} {recalled : Backend V}
    (h : Holds m recalled) {key : String} {value : V} (hfits : Fits m'.policy)
    (hsame : ∀ j, get? m'.policy j = get? (m.policy.insert key value).1 j)
    (hwarm : m'.warmBackend.isSome = m.warmBackend.isSome)
    (hbelow : ∀ k, m'.below k =
      if m.warmBackend.isSome = true ∧ k = key then some value else m.below k)
    (hloses : m.warmBackend.isSome = true ∨ DroppedIsCold m key value) :
    Holds m' (recalled.put key value) := by
  have hins := inserted h.fits key value
  refine ⟨hfits, ?_, ?_⟩
  · intro k v hk
    rw [hsame] at hk
    rcases hins.some_of k v hk with ⟨rfl, rfl⟩ | ⟨hne, hold⟩
    · simp [Backend.put]
    · simpa [Backend.put, hne] using h.held k v hold
  · intro k hk
    rw [hwarm] at hk
    rw [hbelow]
    by_cases hthere : m.warmBackend.isSome = true
    · by_cases hkey : k = key
      · simp [hthere, hkey, Backend.put]
      · simpa [hkey, Backend.put] using h.backed k (Or.inl hthere)
    · have hnone := hk.resolve_left hthere
      rw [hsame] at hnone
      rw [if_neg (fun hc => hthere hc.1)]
      rcases hins.none_of k hnone with ⟨hne, hold⟩ | ⟨w, hdropped⟩
      · rw [h.backed k (Or.inr hold)]
        simp [Backend.put, hne]
      · have hcold := hloses.resolve_left hthere k w hdropped
        rw [below_without_warm hthere, hcold]
        rcases dropped_cases h.fits hdropped with ⟨rfl, rfl⟩ | ⟨hne, hold⟩
        · simp [Backend.put]
        · rw [← h.held k w hold]
          simp [Backend.put, hne]

theorem holds_store {m : TieredMemoryManager V} {recalled : Backend V} (h : Holds m recalled)
    {key : String} {value : V}
    (hloses : m.warmBackend.isSome = true ∨ DroppedIsCold m key value) :
    Holds (m.store key value) (recalled.put key value) := by
  unfold TieredMemoryManager.store
  apply holds_handleEvictions
  apply holds_inserted h (inserted h.fits key value).fits (fun j => rfl)
  · exact isSome_setWarm _ key value
  · exact below_setWarm { m with policy := (m.policy.insert key value).1 } key value
  · exact hloses

/-- A value that the memory holds already changes nothing. -/
theorem put_eq {recalled : Backend V} {key : String} {value : V}
    (h : recalled key = some value) : recalled.put key value = recalled := by
  funext k
  unfold Backend.put
  by_cases hk : k = key
  · rw [if_pos hk, hk, h]
  · rw [if_neg hk]

theorem holds_takeUp {m : TieredMemoryManager V} {recalled : Backend V} (h : Holds m recalled)
    {key : String} {value : V} (hnone : get? m.policy key = none)
    (hbelow : m.below key = some value)
    (hloses : m.warmBackend.isSome = true ∨ DroppedIsCold m key value) :
    Holds (m.takeUp key value) recalled := by
  have hrecalled : recalled key = some value := by
    rw [← h.backed key (Or.inr hnone), hbelow]
  have haccess := accessed (inserted h.fits key value).fits key
  unfold TieredMemoryManager.takeUp
  apply holds_handleEvictions
  rw [← put_eq hrecalled]
  have hkept : ∀ k, TieredMemoryManager.below
      { m with policy := ((m.policy.insert key value).1.access key).1 } k =
      if m.warmBackend.isSome = true ∧ k = key then some value else m.below k := by
    intro k
    by_cases hthere : m.warmBackend.isSome = true ∧ k = key
    · rw [if_pos hthere, ← hbelow, hthere.2]
      rfl
    · rw [if_neg hthere]
      rfl
  exact holds_inserted h haccess.fits haccess.same rfl hkept hloses

theorem holds_hit {m : TieredMemoryManager V} {recalled : Backend V} (h : Holds m recalled)
    (key : String) (promote : Bool) : Holds (m.hit key promote) recalled := by
  unfold TieredMemoryManager.hit
  by_cases hpromote : promote = true
  · rw [if_pos hpromote]
    have haccess := accessed h.fits key
    apply holds_handleEvictions
    refine ⟨haccess.fits, ?_, ?_⟩
    · intro k v hk
      exact h.held k v (by rw [← haccess.same, hk])
    · intro k hk
      apply h.backed k
      rcases hk with hwarm | hnone
      · exact Or.inl hwarm
      · exact Or.inr (by rw [← haccess.same, hnone])
  · rw [if_neg hpromote]
    exact h

theorem holds_retrieve {m : TieredMemoryManager V} {recalled : Backend V} (h : Holds m recalled)
    {key : String} {promote : Bool}
    (hloses : m.warmBackend.isSome = true ∨ (promote = true →
      ∀ value, m.below key = some value → DroppedIsCold m key value)) :
    Holds (m.retrieve key promote).1 recalled := by
  unfold TieredMemoryManager.retrieve
  rcases hhot : m.policy.hot.get? key with _ | v
  · rcases hwarm : m.policy.warm.get? key with _ | v
    · have hnone := get?_none_iff.mpr ⟨hhot, hwarm⟩
      have htakeUp : ∀ v, promote = true → m.below key = some v → Holds (m.takeUp key v) recalled := by
        intro v hpromote hbelow
        apply holds_takeUp h hnone hbelow
        rcases hloses with hthere | hcold
        · exact Or.inl hthere
        · exact Or.inr (hcold hpromote v hbelow)
      rcases hwb : m.warmBackend.bind (fun b => b key) with _ | v
      · rcases hcb : m.coldBackend.bind (fun b => b key) with _ | v
        · exact h
        · have hbelow : m.below key = some v := by
            unfold TieredMemoryManager.below
            rw [hwb]
            exact hcb
          by_cases hpromote : promote = true
          · simp only [if_pos hpromote]
            apply holds_setWarm (htakeUp v hpromote hbelow)
            rw [← h.backed key (Or.inr hnone), hbelow]
          · simp only [if_neg hpromote]
            exact h
      · have hbelow : m.below key = some v := by
          unfold TieredMemoryManager.below
          rw [hwb]
        by_cases hpromote : promote = true
        · simp only [if_pos hpromote]
          exact htakeUp v hpromote hbelow
        · simp only [if_neg hpromote]
          exact h
    · exact holds_hit h key promote
  · exact holds_hit h key promote

/-- The map after a call: a store writes, and nothing else does. -/
def record (recalled : Backend V) : MemoryCall V → Backend V
  | .store key value => recalled.put key value
  | .retrieve .. => recalled
  | .promote .. => recalled
  | .demote .. => recalled

theorem holds_call {m : TieredMemoryManager V} {recalled : Backend V} (h : Holds m recalled)
    {c : MemoryCall V} (hloses : LosesNothing m c) : Holds (call m c) (record recalled c) := by
  cases c with
  | store key value => exact holds_store h hloses
  | retrieve key promote =>
    apply holds_retrieve h
    cases promote with
    | true => exact hloses.imp_right (fun hcold _ => hcold)
    | false => exact Or.inr (fun hf => by cases hf)
  | promote key toTier =>
    change Holds (m.promote key toTier) recalled
    unfold TieredMemoryManager.promote
    by_cases hhot : toTier = .hot
    · subst hhot
      rw [if_pos rfl]
      exact holds_retrieve h (hloses.imp_right (fun hcold _ => hcold))
    · rw [if_neg hhot]
      exact h
  | demote key toTier => exact holds_demote h key toTier

theorem holds_create (warm cold : Bool) (hotMax warmMax : Nat) :
    Holds (create warm cold hotMax warmMax) (.empty : Backend V) := by
  refine ⟨fits_new hotMax warmMax, ?_, ?_⟩
  · intro k v hk
    cases hk
  · intro k _
    unfold TieredMemoryManager.below create
    cases warm <;> cases cold <;> rfl

/-! ## Runs -/

/-- The value of the last store of each key. -/
def lastStored (calls : List (MemoryCall V)) : Backend V := calls.foldl record .empty

/-- Tiered memory refines a map: in every run whose calls lose nothing, each
retrieve gives the value of the last store. -/
theorem tiered_memory_refines_a_map {m m' : TieredMemoryManager V} {calls : List (MemoryCall V)}
    (hinit : (memory V).init m) (hrun : Run ((memory V).restrict LosesNothing) m calls m')
    (key : String) (promote : Bool) : (m'.retrieve key promote).2 = lastStored calls key := by
  obtain ⟨warm, cold, hotMax, warmMax, -, rfl⟩ := hinit
  have hstep : ∀ s c t (b : Backend V), Holds s b → ((memory V).restrict LosesNothing).step s c t →
      Holds t (record b c) := by
    intro s c t b hs hc
    obtain ⟨rfl, hloses⟩ := hc
    exact holds_call hs hloses
  have hholds := hrun.history hstep (holds_create warm cold hotMax warmMax)
  rw [TieredMemoryManager.retrieve_value, hholds.look]
  rfl

/-! ## Without a warm backend -/

/-- A warm backend and no room in the process. -/
theorem a_warm_backend_recalls :
    (((create true false 0 0).store "k" "v").retrieve "k" true).2 = some "v" := by
  have hinit : (memory String).init (create true false 0 0) := ⟨true, false, 0, 0, rfl, rfl⟩
  have hrun : Run ((memory String).restrict LosesNothing) (create true false 0 0)
      [.store "k" "v"] ((create true false 0 0).store "k" "v") :=
    .step ⟨rfl, Or.inl rfl⟩ (.stay _)
  exact tiered_memory_refines_a_map hinit hrun "k" true

/-- Two stores over a cold backend, with room for one entry. -/
def crowded : List (MemoryCall String) := [.store "a" "1", .store "b" "2"]

theorem a_dropped_value_is_lost :
    (memory String).init (create false true 1 1) ∧
      Run (memory String) (create false true 1 1) crowded
        (crowded.foldl call (create false true 1 1)) ∧
      ((crowded.foldl call (create false true 1 1)).retrieve "a" true).2 = none ∧
      lastStored crowded "a" = some "1" := by
  refine ⟨⟨false, true, 1, 1, rfl, rfl⟩, .step rfl (.step rfl (.stay _)), ?_, ?_⟩
  · decide +kernel
  · decide +kernel

end orchestra.recall
