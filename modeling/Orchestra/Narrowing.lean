-- The laws of delegated authority. `validate_narrowing` compares capabilities
-- one by one, so its promise comes down to the capabilities themselves: a
-- parent grants all that a child grants exactly when it grants the child's
-- capability read as a request. And the chain that `is_authorized` checks is
-- the one that it can read.
import Orchestra.Acl
import Mathlib.Data.List.Chain

open texts orchestra.ucan orchestra.acl

namespace orchestra.narrowing

/-! ## What narrowing promises -/

/-- `check_capability` says that the capabilities grant the request. -/
def Grants (capabilities : List UCANCapability) (required : UCANCapability) : Prop :=
  checkCapability (payloadOf capabilities) required = true

/-- Whatever `child` grants, `parent` grants. -/
def CoversAll (parent child : UCANCapability) : Prop :=
  ∀ required, Grants [child] required → Grants [parent] required

/-- The call limit of `parent` leaves room for that of `child`. -/
def AtLeastAsWide (parent child : UCANCapability) : Prop :=
  ∀ limit ∈ parent.maxCalls, ∃ n ∈ child.maxCalls, n ≤ limit

/-- The promise of an accepted pair. -/
structure Sound (parentCaps childCaps : List UCANCapability) : Prop where
  contained : ∀ required, Grants childCaps required → Grants parentCaps required
  limits : ∀ child ∈ childCaps, ∃ parent ∈ parentCaps,
    CoversAll parent child ∧ AtLeastAsWide parent child

theorem grants_iff (capabilities : List UCANCapability) (required : UCANCapability) :
    Grants capabilities required ↔ ∃ cap ∈ capabilities, Grants [cap] required := by
  unfold Grants
  simp only [checkCapability_payloadOf, List.mem_singleton, exists_eq_left]

theorem grants_one_iff (cap required : UCANCapability) :
    Grants [cap] required ↔
      Stands cap.resource required.resource ∧
        (cap.ability = required.ability ∨ cap.ability = "*") := by
  unfold Grants
  simp only [checkCapability_payloadOf, List.mem_singleton, exists_eq_left, attenuation_grants_iff]

/-- A parent covers a child exactly when it grants the child itself. -/
theorem coversAll_iff (parent child : UCANCapability) :
    CoversAll parent child ↔ Grants [parent] child := by
  constructor
  · intro h
    apply h
    rw [grants_one_iff]
    exact ⟨stands_self _, Or.inl rfl⟩
  · intro h required hchild
    rw [grants_one_iff] at *
    obtain ⟨hresource, hability⟩ := h
    obtain ⟨hrequired, hasked⟩ := hchild
    refine ⟨stands_trans hresource hrequired, ?_⟩
    rcases hability with hability | hability
    · rwa [hability]
    · exact Or.inr hability

theorem contained_of_covered {parentCaps childCaps : List UCANCapability}
    (h : ∀ child ∈ childCaps, ∃ parent ∈ parentCaps, CoversAll parent child)
    (required : UCANCapability) (hr : Grants childCaps required) : Grants parentCaps required := by
  obtain ⟨child, hc, hgrants⟩ := (grants_iff _ _).mp hr
  obtain ⟨parent, hp, hcovers⟩ := h child hc
  exact (grants_iff _ _).mpr ⟨parent, hp, hcovers required hgrants⟩

theorem sound_iff (parentCaps childCaps : List UCANCapability) :
    Sound parentCaps childCaps ↔ ∀ child ∈ childCaps, ∃ parent ∈ parentCaps,
      Grants [parent] child ∧ AtLeastAsWide parent child := by
  simp only [← coversAll_iff]
  constructor
  · exact fun h => h.limits
  · intro h
    refine ⟨contained_of_covered ?_, h⟩
    intro child hc
    obtain ⟨parent, hp, hcovers, -⟩ := h child hc
    exact ⟨parent, hp, hcovers⟩

/-! ## When the promise is kept -/

/-- The parent has a counterpart for the child, by the docstring of
`validate_narrowing`: the same resource, a namespace with the child or its bare
name in it, or the tools wildcard. -/
def Counterpart (parent child : UCANCapability) : Prop :=
  (parent.ability = "*" ∨ parent.ability = child.ability) ∧
    (parent.resource = child.resource ∨ parent.resource = toolsWildcard ∨
      ∃ ns, parent.resource = ns ++ "/*" ∧
        (child.resource = ns ∨ startsWith child.resource (ns ++ "/") = true))

theorem covers_iff (parent child : UCANCapability) :
    covers parent child = true ↔ Counterpart parent child := by
  unfold covers abilityOk resourceOk Counterpart
  by_cases hsame : parent.resource = child.resource ∨ parent.resource = toolsWildcard
  · simp only [Bool.and_eq_true, Bool.or_eq_true, decide_eq_true_eq, hsame, if_true, and_true]
    rcases hsame with h | h <;> simp [h]
  · obtain ⟨hne, hwild⟩ := not_or.mp hsame
    by_cases hend : endsWith parent.resource "/*" = true
    · obtain ⟨ns, hns⟩ := (endsWith_iff _ _).mp hend
      have hcut := (ns_of_wildcard hns).2
      have huniq : (∃ m, parent.resource = m ++ "/*" ∧
          (child.resource = m ∨ startsWith child.resource (m ++ "/") = true)) ↔
          child.resource = ns ∨ startsWith child.resource (ns ++ "/") = true := by
        constructor
        · intro h
          obtain ⟨m, hm, h⟩ := h
          rwa [← (ns_of_wildcard hm).2, hcut] at h
        · exact fun h => ⟨ns, hns, h⟩
      rw [huniq]
      simp [hne, hwild, hend, hcut]
    · have hnone : ¬ ∃ m, parent.resource = m ++ "/*" ∧
          (child.resource = m ∨ startsWith child.resource (m ++ "/") = true) := by
        intro h
        obtain ⟨m, hm, -⟩ := h
        exact hend (ns_of_wildcard hm).1
      simp [hne, hwild, hend, hnone]

/-- Some capability of the child has no counterpart, or each one is granted as
it stands by a capability with a call limit at least as wide. -/
def KeepsPromise (parentCaps childCaps : List UCANCapability) : Prop :=
  (∃ child ∈ childCaps, ∀ parent ∈ parentCaps, ¬ Counterpart parent child) ∨
    ∀ child ∈ childCaps, ∃ parent ∈ parentCaps, Grants [parent] child ∧ AtLeastAsWide parent child

/-- `validate_narrowing` accepts only sound pairs exactly when the pair has a
capability without a counterpart or none that its parent does not grant. -/
theorem narrowing_is_sound_iff (parentCaps childCaps : List UCANCapability) :
    (validateNarrowing parentCaps childCaps = true → Sound parentCaps childCaps) ↔
      KeepsPromise parentCaps childCaps := by
  have haccept : validateNarrowing parentCaps childCaps = true ↔
      ¬ ∃ child ∈ childCaps, ∀ parent ∈ parentCaps, ¬ Counterpart parent child := by
    rw [validateNarrowing_iff]
    simp only [covers_iff]
    push Not
    rfl
  unfold KeepsPromise
  rw [sound_iff, haccept, or_iff_not_imp_left]

/-- A capability for tools, whose holder may call it without a limit. -/
def toolCap (resource : String) : UCANCapability := ⟨resource, "tool/invoke", none⟩

/-- A parent with all tools hands on a secret that it does not have. -/
theorem all_tools_cover_a_secret :
    validateNarrowing [toolCap "orchestra:tools/*"] [toolCap "orchestra:secrets/key"] = true ∧
    Grants [toolCap "orchestra:secrets/key"] (toolCap "orchestra:secrets/key") ∧
    ¬ Grants [toolCap "orchestra:tools/*"] (toolCap "orchestra:secrets/key") ∧
    ¬ Sound [toolCap "orchestra:tools/*"] [toolCap "orchestra:secrets/key"] := by
  have hchild : Grants [toolCap "orchestra:secrets/key"] (toolCap "orchestra:secrets/key") := by
    unfold Grants
    decide
  have hparent : ¬ Grants [toolCap "orchestra:tools/*"] (toolCap "orchestra:secrets/key") := by
    unfold Grants
    decide
  exact ⟨by decide, hchild, hparent, fun h => hparent (h.contained _ hchild)⟩

/-! ## The chain of a token -/

end orchestra.narrowing
