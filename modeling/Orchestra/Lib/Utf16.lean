-- The code units of texts in UTF-16, and the order of texts by these units. It is the order by
-- the letters themselves, save where a letter above the surrogates meets one beyond the first
-- 65536, which is written in surrogates.
import Mathlib.Data.List.Basic

namespace utf16

/-! ## Units -/

/-- The code units of a letter. -/
def units (c : Char) : List Nat :=
  if c.toNat < 0x10000 then [c.toNat]
  else [0xD800 + (c.toNat - 0x10000) / 0x400, 0xDC00 + (c.toNat - 0x10000) % 0x400]

def encode (l : List Char) : List Nat := l.flatMap units

@[simp] theorem encode_nil : encode [] = [] := rfl

@[simp] theorem encode_cons (c : Char) (l : List Char) : encode (c :: l) = units c ++ encode l :=
  rfl

theorem units_ne_nil (c : Char) : units c ≠ [] := by
  unfold units
  split <;> exact List.cons_ne_nil _ _

/-- No letter is a surrogate. -/
theorem toNat_cases (c : Char) :
    c.toNat < 0xD800 ∨ 0xDFFF < c.toNat ∧ c.toNat < 0x110000 := c.valid

/-! ## The two orders -/

/-- The texts part at a letter above the surrogates in the first, and at one that is written in
surrogates in the second. -/
def Crossed (l m : List Char) : Prop :=
  ∃ p c d s t, l = p ++ c :: s ∧ m = p ++ d :: t ∧ 0xE000 ≤ c.toNat ∧ c.toNat < 0x10000 ∧
    0x10000 ≤ d.toNat

theorem append_lt_append_left (p : List Nat) {l m : List Nat} :
    p ++ l < p ++ m ↔ l < m := by
  induction p with
  | nil => rfl
  | cons n p ih =>
    rw [List.cons_append, List.cons_append, List.cons_lt_cons_iff, ih]
    simp

theorem units_lt {c d : Char} (hlt : c.toNat < d.toNat)
    (hcross : ¬ (0xE000 ≤ c.toNat ∧ c.toNat < 0x10000 ∧ 0x10000 ≤ d.toNat)) (s t : List Nat) :
    units c ++ s < units d ++ t := by
  have hc := toNat_cases c
  have hd := toNat_cases d
  unfold units
  split
  · split
    · simp only [List.singleton_append, List.cons_lt_cons_iff]
      omega
    · simp only [List.cons_append, List.nil_append, List.cons_lt_cons_iff]
      omega
  · rw [if_neg (by omega)]
    simp only [List.cons_append, List.nil_append, List.cons_lt_cons_iff]
    omega

theorem units_lt_of_crossed {c d : Char} (hc : 0xE000 ≤ c.toNat ∧ c.toNat < 0x10000)
    (hd : 0x10000 ≤ d.toNat) (s t : List Nat) : units d ++ t < units c ++ s := by
  have hrange := toNat_cases d
  unfold units
  rw [if_neg (by omega), if_pos hc.2]
  simp only [List.cons_append, List.nil_append, List.cons_lt_cons_iff]
  omega

theorem toNat_lt_iff {c d : Char} : c.toNat < d.toNat ↔ c < d := Iff.rfl

/-- Texts that cross stand one way by letters and the other way by units. -/
theorem lt_of_crossed {l m : List Char} (h : Crossed l m) : l < m ∧ encode m < encode l := by
  obtain ⟨p, c, d, s, t, rfl, rfl, hc, hhigh, hd⟩ := h
  induction p with
  | nil =>
    refine ⟨?_, units_lt_of_crossed ⟨hc, hhigh⟩ hd _ _⟩
    rw [List.nil_append, List.nil_append, List.cons_lt_cons_iff]
    exact .inl (toNat_lt_iff.mp (by omega))
  | cons e p ih =>
    refine ⟨?_, ?_⟩
    · rw [List.cons_append, List.cons_append, List.cons_lt_cons_iff]
      exact .inr ⟨rfl, ih.1⟩
    · rw [List.cons_append, List.cons_append, encode_cons, encode_cons, append_lt_append_left]
      exact ih.2

/-- Texts that do not cross stand one way in both orders. -/
theorem encode_lt {l m : List Char} (h : l < m) (hcross : ¬ Crossed l m) :
    encode l < encode m := by
  induction l generalizing m with
  | nil =>
    cases m with
    | nil => exact absurd h (List.lt_irrefl _)
    | cons d t =>
      obtain ⟨n, rest, hunits⟩ := List.exists_cons_of_ne_nil (units_ne_nil d)
      rw [encode_nil, encode_cons, hunits]
      exact List.nil_lt_cons ..
  | cons c s ih =>
    cases m with
    | nil => exact absurd h (List.not_lt_nil _)
    | cons d t =>
      rw [encode_cons, encode_cons]
      rcases List.cons_lt_cons_iff.mp h with hlt | ⟨rfl, hlt⟩
      · refine units_lt (toNat_lt_iff.mpr hlt) ?_ _ _
        rintro ⟨hc, hhigh, hd⟩
        exact hcross ⟨[], c, d, s, t, rfl, rfl, hc, hhigh, hd⟩
      · rw [append_lt_append_left]
        refine ih hlt ?_
        rintro ⟨p, c', d', s', t', rfl, rfl, hrest⟩
        exact hcross ⟨c :: p, c', d', s', t', rfl, rfl, hrest⟩

/-- The two orders agree on texts that do not cross. -/
theorem encode_lt_iff {l m : List Char} (hlm : ¬ Crossed l m) (hml : ¬ Crossed m l) :
    encode l < encode m ↔ l < m := by
  refine ⟨fun h => ?_, fun h => encode_lt h hlm⟩
  refine Decidable.byContradiction fun hnot => ?_
  rcases List.le_iff_lt_or_eq.mp (List.not_lt.mp hnot) with hlt | rfl
  · exact List.lt_asymm h (encode_lt hlt hml)
  · exact List.lt_irrefl _ h

end utf16
