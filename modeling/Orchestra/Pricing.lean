-- Which price a model has (`cost/registry.py`): that of its own name, else that of the
-- longest registered name that it starts with.
import Orchestra.Costs
import Orchestra.Lib.Best

open best dicts texts

namespace orchestra.costs

namespace ModelCostRegistry

variable {registry other : ModelCostRegistry} {model name : String}

/-! ## Registrations -/

/-- `set_pricing` -/
def setPricing (registry : ModelCostRegistry) (model : String)
    (inputCostPerToken outputCostPerToken : Rat) : ModelCostRegistry :=
  { registry with prices := registry.prices.set model ⟨inputCostPerToken, outputCostPerToken⟩ }

/-- Registrations, one after the other. -/
def setAll (registry : ModelCostRegistry) (entries : List (String × Pricing)) :
    ModelCostRegistry :=
  entries.foldl (fun r e => r.setPricing e.1 e.2.inputCostPerToken e.2.outputCostPerToken) registry

theorem prices_setAll (registry : ModelCostRegistry) (entries : List (String × Pricing)) :
    (registry.setAll entries).prices = registry.prices.setAll entries := by
  unfold setAll Dict.setAll
  induction entries generalizing registry with
  | nil => rfl
  | cons e rest ih => exact ih _

/-! ## The longest name -/

/-- A registered name that is no empty text, that the model starts with, and that is the longest
of this kind. -/
structure MostSpecific (registry : ModelCostRegistry) (model name : String) : Prop where
  registered : name ∈ registry.prices.keys
  nonempty : name ≠ ""
  starts : startsWith model name = true
  longest : ∀ shorter ∈ registry.prices.keys, startsWith model shorter = true →
    shorter.length ≤ name.length

/-- Two starts of one text that are as long as each other are one. -/
theorem eq_of_starts {s p q : String} (hp : startsWith s p = true) (hq : startsWith s q = true)
    (hlength : p.length = q.length) : p = q := by
  rw [startsWith_iff] at hp hq
  rw [← String.length_toList, ← String.length_toList] at hlength
  have hstart : p.toList <+: q.toList := List.prefix_of_prefix_length_le hp hq hlength.le
  exact String.toList_inj.mp (hstart.eq_of_length hlength)

theorem MostSpecific.unique {name' : String} (h : MostSpecific registry model name)
    (h' : MostSpecific registry model name') : name = name' :=
  eq_of_starts h.starts h'.starts
    (Nat.le_antisymm (h'.longest name h.registered h.starts)
      (h.longest name' h'.registered h'.starts))

/-- The search takes the longest of the names that the model starts with. -/
theorem foldl_longer (model : String) (names : List String) :
    names.foldl (longer model) "" =
      maxBy String.length "" (names.filter fun name => startsWith model name) := by
  unfold maxBy
  rw [List.foldl_filter]
  congr 1
  funext found registered
  unfold longer
  cases startsWith model registered <;> simp

theorem length_pos_of_ne {s : String} (h : s ≠ "") : 0 < s.length :=
  Nat.pos_of_ne_zero fun hzero => h (String.length_eq_zero_iff.mp hzero)

theorem mostSpecific_iff : MostSpecific registry model name ↔
    name ≠ "" ∧ registry.prices.keys.foldl (longer model) "" = name := by
  rw [foldl_longer]
  have hmem := maxBy_mem String.length ""
    (registry.prices.keys.filter fun name => startsWith model name)
  have hle : ∀ shorter ∈ "" :: registry.prices.keys.filter fun name => startsWith model name,
      shorter.length ≤ (maxBy String.length ""
        (registry.prices.keys.filter fun name => startsWith model name)).length :=
    fun _ => le_maxBy String.length
  generalize maxBy String.length ""
    (registry.prices.keys.filter fun name => startsWith model name) = found at hmem hle ⊢
  simp only [List.mem_cons, List.mem_filter] at hmem hle
  have hfound : found ≠ "" → MostSpecific registry model found := by
    intro hne
    obtain ⟨hregistered, hstarts⟩ := hmem.resolve_left hne
    exact ⟨hregistered, hne, hstarts, fun shorter hshorter hstart =>
      hle shorter (.inr ⟨hshorter, hstart⟩)⟩
  constructor
  · intro h
    have hlength : 0 < found.length := (length_pos_of_ne h.nonempty).trans_le
      (hle name (.inr ⟨h.registered, h.starts⟩))
    have hne : found ≠ "" := by
      rintro rfl
      exact absurd hlength (by simp)
    exact ⟨h.nonempty, (hfound hne).unique h⟩
  · rintro ⟨hne, rfl⟩
    exact hfound hne

/-- Where no name is the longest, no name but the empty one is a start. -/
theorem no_start (h : ∀ name, ¬ MostSpecific registry model name) :
    ∀ name ∈ registry.prices.keys, name ≠ "" → startsWith model name = false := by
  have hfound : registry.prices.keys.foldl (longer model) "" = "" :=
    by_contra fun hne => h _ (mostSpecific_iff.mpr ⟨hne, rfl⟩)
  rw [foldl_longer] at hfound
  intro name hname hne
  by_contra hstarts
  have hmem := List.mem_filter.mpr ⟨hname, Bool.of_not_eq_false hstarts⟩
  have hle : name.length ≤ (maxBy String.length ""
      (registry.prices.keys.filter fun name => startsWith model name)).length :=
    le_maxBy String.length (List.mem_cons_of_mem _ hmem)
  rw [hfound] at hle
  exact absurd (length_pos_of_ne hne) (Nat.not_lt.mpr hle)

/-! ## The price -/

theorem getPricing_of_registered {pricing : Pricing}
    (h : registry.prices.get? model = some pricing) : registry.getPricing model = some pricing := by
  unfold getPricing
  rw [h]

theorem getPricing_of_mostSpecific (hnone : registry.prices.get? model = none)
    (h : MostSpecific registry model name) :
    registry.getPricing model = registry.prices.get? name := by
  obtain ⟨hne, hfound⟩ := mostSpecific_iff.mp h
  unfold getPricing
  rw [hnone]
  dsimp only
  rw [hfound, if_neg hne]

theorem getPricing_of_none (hnone : registry.prices.get? model = none)
    (h : ∀ name, ¬ MostSpecific registry model name) : registry.getPricing model = none := by
  unfold getPricing
  rw [hnone]
  dsimp only
  refine if_pos (by_contra fun hne => ?_)
  exact h _ (mostSpecific_iff.mpr ⟨hne, rfl⟩)

theorem MostSpecific.congr (hsame : ∀ name, registry.prices.get? name = other.prices.get? name)
    (h : MostSpecific registry model name) : MostSpecific other model name := by
  have hkeys : ∀ key, key ∈ registry.prices.keys ↔ key ∈ other.prices.keys := by
    intro key
    rw [Dict.mem_keys_iff, Dict.mem_keys_iff, hsame]
  exact ⟨(hkeys name).mp h.registered, h.nonempty, h.starts,
    fun shorter hshorter => h.longest shorter ((hkeys shorter).mpr hshorter)⟩

/-- Registries with the same prices give the same answer, in whatever order they hold them. -/
theorem getPricing_congr (hsame : ∀ name, registry.prices.get? name = other.prices.get? name)
    (model : String) : registry.getPricing model = other.getPricing model := by
  cases hexact : registry.prices.get? model with
  | some pricing =>
    rw [getPricing_of_registered hexact, getPricing_of_registered ((hsame model).symm.trans hexact)]
  | none =>
    have hother := (hsame model).symm.trans hexact
    by_cases hfound : ∃ name, MostSpecific registry model name
    · obtain ⟨name, hname⟩ := hfound
      rw [getPricing_of_mostSpecific hexact hname,
        getPricing_of_mostSpecific hother (hname.congr hsame), hsame]
    · rw [not_exists] at hfound
      rw [getPricing_of_none hexact hfound, getPricing_of_none hother fun name hname =>
        hfound name (hname.congr fun key => (hsame key).symm)]

theorem get?_setAll_perm {entries entries' : List (String × Pricing)}
    (hperm : entries.Perm entries') (hdistinct : (entries'.map Prod.fst).Nodup) (name : String) :
    (registry.setAll entries).prices.get? name = (registry.setAll entries').prices.get? name := by
  have hdistinct' : (entries.map Prod.fst).Nodup := (hperm.map Prod.fst).nodup_iff.mpr hdistinct
  rw [prices_setAll, prices_setAll, Dict.get?_setAll _ hdistinct', Dict.get?_setAll _ hdistinct,
    lookup_perm hperm hdistinct]

/-- A model has the price of its own name if this is registered, else that of the longest
registered name that it starts with, else none; and names that are registered in another order
make no difference. -/
theorem pricing_is_most_specific (registry : ModelCostRegistry) (model : String) :
    (∀ pricing, registry.prices.get? model = some pricing →
      registry.getPricing model = some pricing) ∧
    (registry.prices.get? model = none →
      (∃ name, MostSpecific registry model name ∧
        registry.getPricing model = registry.prices.get? name) ∨
      (∀ name ∈ registry.prices.keys, name ≠ "" → startsWith model name = false) ∧
        registry.getPricing model = none) ∧
    (∀ entries entries' : List (String × Pricing), entries.Perm entries' →
      (entries'.map Prod.fst).Nodup →
        (registry.setAll entries).getPricing model =
          (registry.setAll entries').getPricing model) ∧
    ∀ other : ModelCostRegistry,
      (∀ name, registry.prices.get? name = other.prices.get? name) →
        registry.getPricing model = other.getPricing model := by
  refine ⟨fun _ => getPricing_of_registered, fun hnone => ?_,
    fun entries entries' hperm hdistinct =>
      getPricing_congr (fun name => get?_setAll_perm hperm hdistinct name) model,
    fun other hsame => getPricing_congr hsame model⟩
  by_cases hfound : ∃ name, MostSpecific registry model name
  · obtain ⟨name, hname⟩ := hfound
    exact .inl ⟨name, hname, getPricing_of_mostSpecific hnone hname⟩
  · rw [not_exists] at hfound
    exact .inr ⟨no_start hfound, getPricing_of_none hnone hfound⟩

/-- The price of the longer name, in both orders. -/
theorem a_turbo_has_its_own_price :
    ((⟨.empty⟩ : ModelCostRegistry).setAll
        [("gpt-4", ⟨3, 6⟩), ("gpt-4-turbo", ⟨1, 3⟩)]).getPricing "gpt-4-turbo-2024" =
      some ⟨1, 3⟩ ∧
    ((⟨.empty⟩ : ModelCostRegistry).setAll
        [("gpt-4", ⟨3, 6⟩), ("gpt-4-turbo", ⟨1, 3⟩)]).getPricing "gpt-4-turbo-2024" =
      ((⟨.empty⟩ : ModelCostRegistry).setAll
        [("gpt-4-turbo", ⟨1, 3⟩), ("gpt-4", ⟨3, 6⟩)]).getPricing "gpt-4-turbo-2024" := by
  refine ⟨?_, (pricing_is_most_specific ⟨.empty⟩ "gpt-4-turbo-2024").2.2.1 _ _
    (.swap _ _ _) (by decide)⟩
  rw [(pricing_is_most_specific ⟨.empty⟩ "gpt-4-turbo-2024").2.2.1 _ _ (.swap _ _ _) (by decide)]
  decide

end ModelCostRegistry

end orchestra.costs
