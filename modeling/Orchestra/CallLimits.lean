-- The call limits of a token (`ToolACL.check_ucan_call_limit`): the first
-- capability for a tool decides, and the calls are counted for each tool.
import Orchestra.Acl
import Orchestra.Lib.Dict
import Mathlib.Algebra.Order.BigOperators.Group.List
import Mathlib.Algebra.Order.Ring.Nat
import Mathlib.Data.List.Perm.Subperm

open dicts orchestra.ucan orchestra.acl

namespace orchestra.call_limits

/-- `check_ucan_call_limit`: its answer, and `call_counts` as it leaves them. -/
def checkUcanCallLimit (toolName : String) (ucan : UCANToken) (callCounts : Dict String Int) :
    Bool × Dict String Int :=
  match ucan.capabilities.find? (invokes toolName) with
  | none => (false, callCounts)
  | some cap =>
    match cap.maxCalls with
    | none => (true, callCounts)
    | some maxCalls =>
      let current := (callCounts.get? toolName).getD 0
      if current ≥ maxCalls then (false, callCounts)
      else (true, callCounts.set toolName (current + 1))

/-- The tools of the calls that are permitted, of calls that share their counts. -/
def permittedCalls (ucan : UCANToken) : Dict String Int → List String → List String
  | _, [] => []
  | callCounts, toolName :: calls =>
    let (permitted, after) := checkUcanCallLimit toolName ucan callCounts
    if permitted then toolName :: permittedCalls ucan after calls
    else permittedCalls ucan after calls

/-- The capability is the one that decides about the tool. -/
def decides (ucan : UCANToken) (cap : UCANCapability) (toolName : String) : Bool :=
  ucan.capabilities.find? (invokes toolName) = some cap

/-- The calls permitted under a capability, from no calls on. -/
def permittedUnder (ucan : UCANToken) (cap : UCANCapability) (calls : List String) : List String :=
  (permittedCalls ucan .empty calls).filter (decides ucan cap)

/-! ## One tool -/

theorem checkUcanCallLimit_other {toolName other : String} (hne : toolName ≠ other)
    (ucan : UCANToken) (callCounts : Dict String Int) :
    (checkUcanCallLimit toolName ucan callCounts).2.get? other = callCounts.get? other := by
  unfold checkUcanCallLimit
  split
  · rfl
  · split
    · rfl
    · simp only
      split
      · rfl
      · exact Dict.get?_set_ne _ _ hne

theorem checkUcanCallLimit_limited {ucan : UCANToken} {cap : UCANCapability} {toolName : String}
    {n : Int} (hcap : decides ucan cap toolName = true) (hlimit : cap.maxCalls = some n)
    (callCounts : Dict String Int) :
    checkUcanCallLimit toolName ucan callCounts =
      if (callCounts.get? toolName).getD 0 ≥ n then (false, callCounts)
      else (true, callCounts.set toolName ((callCounts.get? toolName).getD 0 + 1)) := by
  have hfind : ucan.capabilities.find? (invokes toolName) = some cap := by
    simpa [decides] using hcap
  simp only [checkUcanCallLimit, hfind, hlimit]

/-- A tool gets as many calls as it asks for, up to what its count leaves of the
limit. -/
theorem count_permittedCalls {ucan : UCANToken} {cap : UCANCapability} {toolName : String}
    {n : Int} (hcap : decides ucan cap toolName = true) (hlimit : cap.maxCalls = some n)
    (callCounts : Dict String Int) (calls : List String) :
    (permittedCalls ucan callCounts calls).count toolName =
      min (calls.count toolName) (n - (callCounts.get? toolName).getD 0).toNat := by
  induction calls generalizing callCounts with
  | nil => simp [permittedCalls]
  | cons next calls ih =>
    by_cases hnext : next = toolName
    · subst hnext
      simp only [permittedCalls, checkUcanCallLimit_limited hcap hlimit]
      by_cases hover : (callCounts.get? next).getD 0 ≥ n
      · simp only [hover, if_true, Bool.false_eq_true, if_false, ih]
        rw [List.count_cons_self]
        omega
      · simp only [hover, if_false, if_true]
        rw [List.count_cons_self, List.count_cons_self, ih, Dict.get?_set_self, Option.getD_some]
        omega
    · have hother := checkUcanCallLimit_other hnext ucan callCounts
      rw [List.count_cons_of_ne hnext]
      simp only [permittedCalls]
      split
      · rw [List.count_cons_of_ne hnext, ih, hother]
      · rw [ih, hother]

/-! ## All tools of a capability -/

theorem count_add_count_le {α : Type} [DecidableEq α] {a b : α} (hne : a ≠ b) (l : List α) :
    l.count a + l.count b ≤ l.length := by
  induction l with
  | nil => simp
  | cons x l ih =>
    simp only [List.count_cons, List.length_cons, beq_iff_eq]
    by_cases ha : x = a
    · have hb : ¬ x = b := fun hb => hne (ha.symm.trans hb)
      simp only [ha, if_true]
      rw [if_neg (ha ▸ hb)]
      omega
    · simp only [ha, if_false]
      split <;> omega

/-- Cut each element of a list down to at most `m` times. No more than `m` are
left in all only when none had to be left out, or when they are all one. -/
theorem length_capped_le_iff {α : Type} [DecidableEq α] {l capped : List α} {m : Nat}
    (h : ∀ a, capped.count a = min (l.count a) m) :
    capped.length ≤ m ↔ m = 0 ∨ l.length ≤ m ∨ ∀ a ∈ l, ∀ b ∈ l, a = b := by
  constructor
  · intro hlength
    by_contra hnot
    simp only [not_or, not_forall] at hnot
    obtain ⟨hm, hl, a, ha, b, hb, hab⟩ := hnot
    have hpos : ∀ c ∈ l, 0 < l.count c := fun c hc => List.count_pos_iff.mpr hc
    by_cases hfull : ∃ c, m ≤ l.count c
    · -- One element takes all the `m`, and another one is left too.
      obtain ⟨c, hc⟩ := hfull
      obtain ⟨d, hd, hcd⟩ : ∃ d ∈ l, c ≠ d := by
        by_cases hca : c = a
        · exact ⟨b, hb, hca ▸ hab⟩
        · exact ⟨a, ha, hca⟩
      have hsum := count_add_count_le hcd capped
      have hone := hpos d hd
      rw [h c, h d] at hsum
      omega
    · -- No element is cut, so the two lists have the same elements.
      have hperm : capped.Perm l := by
        rw [List.perm_iff_count]
        intro c
        have hc : ¬ m ≤ l.count c := fun hc => hfull ⟨c, hc⟩
        rw [h c]
        omega
      have := hperm.length_eq
      omega
  · rintro (hm | hl | hone)
    · subst hm
      have hnil : capped = [] := by
        rw [List.eq_nil_iff_forall_not_mem]
        intro a ha
        have := List.count_pos_iff.mpr ha
        rw [h a] at this
        omega
      simp [hnil]
    · have hsub : capped.Subperm l := by
        rw [List.subperm_ext_iff]
        intro a _
        rw [h a]
        exact Nat.min_le_left ..
      exact hsub.length_le.trans hl
    · have hmem : ∀ a ∈ capped, a ∈ l := by
        intro a ha
        have := List.count_pos_iff.mpr ha
        rw [h a] at this
        exact List.count_pos_iff.mp (by omega)
      cases capped with
      | nil => simp
      | cons a rest =>
        have hall : (a :: rest).count a = (a :: rest).length := by
          rw [List.count_eq_length]
          exact fun b hb => hone a (hmem a (List.mem_cons_self ..)) b (hmem b hb)
        rw [← hall, h a]
        exact Nat.min_le_right ..

theorem count_permittedUnder {ucan : UCANToken} {cap : UCANCapability} {n : Int}
    (hlimit : cap.maxCalls = some n) (calls : List String) (toolName : String) :
    (permittedUnder ucan cap calls).count toolName =
      min ((calls.filter (decides ucan cap)).count toolName) n.toNat := by
  unfold permittedUnder
  by_cases hcap : decides ucan cap toolName = true
  · rw [List.count_filter hcap, List.count_filter hcap, count_permittedCalls hcap hlimit]
    simp
  · have hnone : ∀ l : List String, (l.filter (decides ucan cap)).count toolName = 0 := by
      intro l
      rw [List.count_eq_zero]
      exact fun hmem => hcap (List.mem_filter.mp hmem).2
    rw [hnone, hnone]
    simp

/-- The limit of a capability bounds the calls permitted under it just when it is
not negative, and zero or enough for all the calls it decides about, or these are
all for one tool. -/
theorem permitted_within_limit_iff (ucan : UCANToken) (cap : UCANCapability) (n : Int)
    (hlimit : cap.maxCalls = some n) (calls : List String) :
    (permittedUnder ucan cap calls).length ≤ n ↔
      0 ≤ n ∧ (n = 0 ∨ (calls.filter (decides ucan cap)).length ≤ n ∨
        ∀ s ∈ calls.filter (decides ucan cap), ∀ t ∈ calls.filter (decides ucan cap), s = t) := by
  have hcount := @count_permittedUnder ucan cap n hlimit calls
  have hcapped := length_capped_le_iff hcount
  by_cases hn : 0 ≤ n
  · obtain ⟨m, rfl⟩ := Int.eq_ofNat_of_zero_le hn
    simp only [Int.toNat_natCast] at hcapped
    simp only [Int.ofNat_le, Int.natCast_eq_zero, hn, true_and]
    exact hcapped
  · constructor
    · intro hle
      omega
    · exact fun h => absurd h.1 hn

/-- A token that is its list of capabilities, and nothing else. -/
def tokenWith (capabilities : List UCANCapability) : UCANToken :=
  ⟨"", "", "", capabilities, 0, 0, "", []⟩

def allTools (limit : Int) : UCANCapability := ⟨toolsWildcard, "tool/invoke", some limit⟩

/-- Three calls of one tool under a wildcard for two. -/
theorem permitted_within_two :
    ((permittedUnder (tokenWith [allTools 2]) (allTools 2) ["find", "find", "find"]).length : Int)
      ≤ 2 :=
  (permitted_within_limit_iff (tokenWith [allTools 2]) (allTools 2) 2 rfl _).mpr (by decide)

/-- A wildcard for one call permits one call of each tool. -/
theorem wildcard_limit_exceeded :
    allTools 1 ∈ (tokenWith [allTools 1]).capabilities ∧ (allTools 1).maxCalls = some 1 ∧
      ¬ ((permittedUnder (tokenWith [allTools 1]) (allTools 1) ["find", "read"]).length : Int)
        ≤ 1 := by
  decide +kernel

/-! ## Every sequence of calls -/

/-- A capability for every tool. -/
def coversAllTools (cap : UCANCapability) : Bool :=
  cap.resource = toolsWildcard && (cap.ability = "tool/invoke" || cap.ability = "*")

theorem invokes_of_coversAllTools {cap : UCANCapability} (h : coversAllTools cap = true)
    (toolName : String) : invokes toolName cap = true := by
  simp only [coversAllTools, Bool.and_eq_true] at h
  simp [invokes, h.1, h.2]

/-- A name that is too long for any capability to name it. -/
def longName (caps : List UCANCapability) (extra : Nat) : String :=
  String.ofList (List.replicate ((caps.map (·.resource.length)).sum + extra) 'x')

theorem not_invokes_longName {caps : List UCANCapability} {cap : UCANCapability}
    (hmem : cap ∈ caps) (hall : coversAllTools cap = false) (extra : Nat) :
    invokes (longName caps extra) cap = false := by
  have hlength : cap.resource.length ≤ (caps.map (·.resource.length)).sum :=
    List.single_le_sum (fun _ _ => Nat.zero_le _) _ (List.mem_map_of_mem hmem)
  have hexact : cap.resource ≠ "orchestra:tools/" ++ longName caps extra := by
    intro heq
    have hlen := congrArg String.length heq
    have hprefix : "orchestra:tools/".length = 16 := by decide
    simp only [String.length_append, longName, String.length_ofList, List.length_replicate,
      hprefix] at hlen
    omega
  simp only [coversAllTools] at hall
  simp only [invokes, hexact, decide_false, Bool.false_or]
  exact hall

/-- The first capability for every tool decides about every long name. -/
theorem decides_longName {ucan : UCANToken} {cap : UCANCapability}
    (hfind : ucan.capabilities.find? coversAllTools = some cap) (extra : Nat) :
    decides ucan cap (longName ucan.capabilities extra) = true := by
  simp only [decides, decide_eq_true_eq]
  rw [List.find?_eq_some_iff_append] at hfind ⊢
  obtain ⟨hall, before, rest, heq, hbefore⟩ := hfind
  refine ⟨invokes_of_coversAllTools hall _, before, rest, heq, ?_⟩
  intro other hother
  have hmem : other ∈ ucan.capabilities := by
    rw [heq]
    exact List.mem_append_left _ hother
  have hnot : coversAllTools other = false := by simpa using hbefore other hother
  simp [not_invokes_longName hmem hnot extra]

/-- A tool that another capability decides about is named by it. -/
theorem eq_of_decides {ucan : UCANToken} {cap : UCANCapability} {s t : String}
    (hs : decides ucan cap s = true) (ht : decides ucan cap t = true)
    (hall : coversAllTools cap = false) : s = t := by
  have hnames : ∀ u : String, decides ucan cap u = true →
      cap.resource = "orchestra:tools/" ++ u := by
    intro u hu
    simp only [decides, decide_eq_true_eq] at hu
    have hinvokes := List.find?_some hu
    simp only [invokes, coversAllTools, Bool.and_eq_true, Bool.or_eq_true, Bool.and_eq_false_iff,
      decide_eq_true_eq] at hinvokes hall
    rcases hinvokes.1 with h | h
    · exact h
    · rcases hall with hno | hno
      · simp [h] at hno
      · simp only [Bool.or_eq_false_iff, decide_eq_false_iff_not] at hno
        exact absurd hinvokes.2 (not_or.mpr hno)
  have heq := (hnames s hs).symm.trans (hnames t ht)
  exact (String.append_right_inj _).mp heq

/-- A capability for every tool that decides about one tool is the first of its
kind. -/
theorem first_of_decides {ucan : UCANToken} {cap : UCANCapability} {s : String}
    (hs : decides ucan cap s = true) (hall : coversAllTools cap = true) :
    ucan.capabilities.find? coversAllTools = some cap := by
  simp only [decides, decide_eq_true_eq] at hs
  rw [List.find?_eq_some_iff_append] at hs ⊢
  obtain ⟨_, before, rest, heq, hbefore⟩ := hs
  refine ⟨hall, before, rest, heq, fun other hother => ?_⟩
  have hnot : invokes s other = false := by simpa using hbefore other hother
  by_contra hcovers
  rw [Bool.not_eq_true', Bool.not_eq_false] at hcovers
  rw [invokes_of_coversAllTools hcovers] at hnot
  cases hnot

/-- The limits of a token hold for all calls just when none is negative and the
first capability for every tool, if there is one, permits none or has no limit. -/
theorem limits_hold_iff (ucan : UCANToken) :
    (∀ calls : List String, ∀ cap ∈ ucan.capabilities, ∀ n, cap.maxCalls = some n →
      ((permittedUnder ucan cap calls).length : Int) ≤ n) ↔
    (∀ cap ∈ ucan.capabilities, ∀ n, cap.maxCalls = some n → 0 ≤ n) ∧
      ∀ cap, ucan.capabilities.find? coversAllTools = some cap →
        ∀ n, cap.maxCalls = some n → n = 0 := by
  constructor
  · intro hhold
    refine ⟨fun cap hcap n hn => ?_, fun cap hfind n hn => ?_⟩
    · exact ((permitted_within_limit_iff ucan cap n hn []).mp (hhold [] cap hcap n hn)).1
    · -- More calls of one tool than the limit allows, and one of another tool.
      let s := longName ucan.capabilities 0
      let t := longName ucan.capabilities 1
      have hne : s ≠ t := by
        intro heq
        have := congrArg String.length heq
        simp [s, t, longName] at this
      have hs : decides ucan cap s = true := decides_longName hfind 0
      have ht : decides ucan cap t = true := decides_longName hfind 1
      let calls := t :: List.replicate n.toNat s
      have hkept : calls.filter (decides ucan cap) = calls := by
        rw [List.filter_eq_self]
        intro u hu
        rcases List.mem_cons.mp hu with rfl | hu
        · exact ht
        · rw [List.eq_of_mem_replicate hu]
          exact hs
      have hmem := List.mem_of_find?_eq_some hfind
      obtain ⟨hnonneg, hzero | hfew | hone⟩ :=
        (permitted_within_limit_iff ucan cap n hn calls).mp (hhold calls cap hmem n hn)
      · exact hzero
      · rw [hkept] at hfew
        simp only [calls, List.length_cons, List.length_replicate] at hfew
        omega
      · rw [hkept] at hone
        by_contra hn0
        have hsmem : s ∈ calls := by
          refine List.mem_cons_of_mem _ (List.mem_replicate.mpr ⟨?_, rfl⟩)
          omega
        exact hne (hone s hsmem t (List.mem_cons_self ..))
  · rintro ⟨hnonneg, hfirst⟩ calls cap hcap n hn
    refine (permitted_within_limit_iff ucan cap n hn calls).mpr ⟨hnonneg cap hcap n hn, ?_⟩
    by_cases hall : coversAllTools cap = true
    · by_cases hfind : ucan.capabilities.find? coversAllTools = some cap
      · exact Or.inl (hfirst cap hfind n hn)
      · refine Or.inr (Or.inr fun s hs => ?_)
        exact absurd (first_of_decides (List.mem_filter.mp hs).2 hall) hfind
    · refine Or.inr (Or.inr fun s hs t ht => ?_)
      exact eq_of_decides (List.mem_filter.mp hs).2 (List.mem_filter.mp ht).2 (by simpa using hall)

end orchestra.call_limits
