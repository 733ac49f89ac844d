-- Numbers as Python rounds and prints them: to the nearest, and in the middle
-- to the even one.
import Mathlib.Algebra.Order.BigOperators.Group.List
import Mathlib.Data.Rat.Floor
import Mathlib.Tactic.Linarith

namespace decimals

/-- The nearest whole number to `x`, which is not negative. -/
def halfEven (x : Rat) : Nat :=
  let low := ⌊x⌋.toNat
  let rest := x - low
  if rest < 1 / 2 then low
  else if 1 / 2 < rest then low + 1
  else if low % 2 = 0 then low
  else low + 1

/-- Rounding keeps the order: of two numbers between the same whole numbers, the one that is
rounded up is not the smaller one. -/
theorem halfEven_mono {x y : Rat} (h : x ≤ y) : halfEven x ≤ halfEven y := by
  have hfloor : ⌊x⌋.toNat ≤ ⌊y⌋.toNat := Int.toNat_le_toNat (Int.floor_le_floor h)
  have hup : halfEven x ≤ ⌊x⌋.toNat + 1 := by
    unfold halfEven
    dsimp only
    split_ifs <;> omega
  have hdown : ⌊y⌋.toNat ≤ halfEven y := by
    unfold halfEven
    dsimp only
    split_ifs <;> omega
  rcases Nat.lt_or_ge ⌊x⌋.toNat ⌊y⌋.toNat with hlt | hge
  · omega
  · have heq : ⌊x⌋.toNat = ⌊y⌋.toNat := Nat.le_antisymm hfloor hge
    have hrest : x - (⌊x⌋.toNat : Nat) ≤ y - (⌊y⌋.toNat : Nat) := by
      rw [heq]
      exact sub_le_sub_right h _
    unfold halfEven
    dsimp only
    rw [heq] at hrest ⊢
    split_ifs with h₁ h₂ h₃ h₄ h₅ h₆ h₇
    all_goals first
      | omega
      | exact absurd (lt_of_le_of_lt hrest ‹_›) ‹_›
      | exact absurd (lt_of_lt_of_le ‹_› hrest) ‹_›

/-- `round(x)` -/
def roundInt (x : Rat) : Int := if x < 0 then -(halfEven |x| : Int) else halfEven x

/-- `round(x, places)` -/
def roundTo (places : Nat) (x : Rat) : Rat :=
  let size : Rat := halfEven (|x| * 10 ^ places) / 10 ^ places
  if x < 0 then -size else size

/-- `{x:.4f}` -/
def fixed4 (x : Rat) : String :=
  let n := halfEven (|x| * 10000)
  let digits := toString (n % 10000)
  (if x < 0 then "-" else "") ++ toString (n / 10000) ++ "." ++
    String.ofList (List.replicate (4 - digits.length) '0') ++ digits

/-- `{x:.1f}` -/
def fixed1 (x : Rat) : String :=
  let n := halfEven (|x| * 10)
  (if x < 0 then "-" else "") ++ toString (n / 10) ++ "." ++ toString (n % 10)

/-- `int(x)` -/
def truncate (x : Rat) : Int := x.num.tdiv x.den

theorem truncate_of_nonneg {x : Rat} (h : 0 ≤ x) : truncate x = ⌊x⌋ := by
  unfold truncate
  rw [Int.tdiv_eq_ediv_of_nonneg (Rat.num_nonneg.mpr h)]
  exact (Rat.floor_def x).symm

theorem truncate_neg (x : Rat) : truncate (-x) = -truncate x := by
  unfold truncate
  rw [Rat.num_neg_eq_neg_num, Rat.den_neg_eq_den, Int.neg_tdiv]

/-- A comma after every third digit, from the end of the number on. -/
def commasFrom : List Char → List Char
  | a :: b :: c :: d :: rest => a :: b :: c :: ',' :: commasFrom (d :: rest)
  | digits => digits

/-- `{n:,}` -/
def grouped (n : Int) : String :=
  (if n < 0 then "-" else "") ++
    String.ofList (commasFrom (toString n.natAbs).toList.reverse).reverse

example : fixed4 (-1 / 20000) = "-0.0000" ∧ fixed4 (25 / 2) = "12.5000" := by decide +kernel

example : grouped 1234567 = "1,234,567" ∧ grouped (-999) = "-999" := by decide +kernel

/-! ## Sums -/

/-- The sizes of numbers of one sign add up to the size of their sum. -/
theorem sum_abs {l : List Int} (h : (∀ x ∈ l, 0 ≤ x) ∨ ∀ x ∈ l, x ≤ 0) :
    (l.map fun x => |x|).sum = |l.sum| := by
  induction l with
  | nil => simp
  | cons x rest ih =>
    rw [List.map_cons, List.sum_cons, List.sum_cons]
    rcases h with hpos | hneg
    · rw [List.forall_mem_cons] at hpos
      have hsum := List.sum_nonneg hpos.2
      rw [ih (.inl hpos.2), abs_of_nonneg hpos.1, abs_of_nonneg hsum,
        abs_of_nonneg (add_nonneg hpos.1 hsum)]
    · rw [List.forall_mem_cons] at hneg
      have hsum : rest.sum ≤ 0 := by simpa using List.sum_le_card_nsmul rest 0 hneg.2
      rw [ih (.inr hneg.2), abs_of_nonpos hneg.1, abs_of_nonpos hsum,
        abs_of_nonpos (add_nonpos hneg.1 hsum), neg_add]

/-- Numbers that are rounded down one by one come to no more than their sum. -/
theorem sum_floor_le (l : List Rat) : (l.map Int.floor).sum ≤ ⌊l.sum⌋ := by
  induction l with
  | nil => simp
  | cons x rest ih =>
    rw [List.map_cons, List.sum_cons, List.sum_cons]
    exact (add_le_add_right ih ⌊x⌋).trans (Int.le_floor_add x rest.sum)

/-- They lose at most one for each number. -/
theorem floor_sum_le (l : List Rat) : ⌊l.sum⌋ ≤ (l.map Int.floor).sum + l.length := by
  induction l with
  | nil => simp
  | cons x rest ih =>
    have hstep := Int.le_floor_add_floor x rest.sum
    rw [List.map_cons, List.sum_cons, List.sum_cons, List.length_cons]
    push_cast
    linarith

end decimals
