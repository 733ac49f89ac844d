-- Dates and UTC times as Python has them, with their ISO texts. The texts of two dates have the
-- order of the dates, also where the text of a time follows one of them.
import Mathlib.Algebra.GroupWithZero.Nat
import Mathlib.Data.String.Basic

namespace dates

/-! ## Numbers of a fixed width -/

/-- The last `width` decimal digits of `n`. -/
def digits : Nat → Nat → List Char
  | 0, _ => []
  | width + 1, n => digits width (n / 10) ++ [(n % 10).digitChar]

@[simp] theorem length_digits (width n : Nat) : (digits width n).length = width := by
  induction width generalizing n with
  | zero => rfl
  | succ width ih => rw [digits, List.length_append, ih, List.length_singleton]

/-- In texts with heads of one length the heads decide, or the tails where the heads agree. -/
theorem append_lt_append_iff {a b : List Char} (h : a.length = b.length) (x y : List Char) :
    a ++ x < b ++ y ↔ a < b ∨ a = b ∧ x < y := by
  induction a generalizing b with
  | nil =>
    obtain rfl := List.length_eq_zero_iff.mp h.symm
    simp
  | cons c a ih =>
    cases b with
    | nil => cases h
    | cons d b =>
      rw [List.cons_append, List.cons_append, List.cons_lt_cons_iff, List.cons_lt_cons_iff,
        ih (Nat.succ.inj h), List.cons.injEq]
      constructor
      · rintro (hcd | ⟨rfl, hab | ⟨rfl, hxy⟩⟩)
        · exact .inl (.inl hcd)
        · exact .inl (.inr ⟨rfl, hab⟩)
        · exact .inr ⟨⟨rfl, rfl⟩, hxy⟩
      · rintro ((hcd | ⟨rfl, hab⟩) | ⟨⟨rfl, rfl⟩, hxy⟩)
        · exact .inl hcd
        · exact .inr ⟨rfl, .inl hab⟩
        · exact .inr ⟨rfl, .inr ⟨rfl, hxy⟩⟩

theorem digitChar_lt_iff {m n : Nat} (hm : m < 10) (hn : n < 10) :
    m.digitChar < n.digitChar ↔ m < n := by
  have hall : ∀ m < 10, ∀ n < 10, m.digitChar < n.digitChar ↔ m < n := by decide
  exact hall m hm n hn

theorem digitChar_inj {m n : Nat} (hm : m < 10) (hn : n < 10) (h : m.digitChar = n.digitChar) :
    m = n := by
  have hmn := mt (digitChar_lt_iff hm hn).mpr (by rw [h]; exact lt_irrefl _)
  have hnm := mt (digitChar_lt_iff hn hm).mpr (by rw [h]; exact lt_irrefl _)
  omega

theorem digits_inj {width m n : Nat} (hm : m < 10 ^ width) (hn : n < 10 ^ width)
    (h : digits width m = digits width n) : m = n := by
  induction width generalizing m n with
  | zero => omega
  | succ width ih =>
    rw [pow_succ] at hm hn
    obtain ⟨hhigh, hlow⟩ := List.append_inj' h rfl
    have hdiv := ih (by omega) (by omega) hhigh
    have hmod := digitChar_inj (Nat.mod_lt m (by omega)) (Nat.mod_lt n (by omega))
      (List.singleton_inj.mp hlow)
    omega

/-- The texts have the order of the numbers. -/
theorem digits_lt_iff {width m n : Nat} (hm : m < 10 ^ width) (hn : n < 10 ^ width) :
    digits width m < digits width n ↔ m < n := by
  induction width generalizing m n with
  | zero =>
    have heq : m = n := by omega
    simp [heq, digits]
  | succ width ih =>
    rw [pow_succ] at hm hn
    have hdiv : m / 10 < 10 ^ width ∧ n / 10 < 10 ^ width := by omega
    have hsame : digits width (m / 10) = digits width (n / 10) ↔ m / 10 = n / 10 :=
      ⟨digits_inj hdiv.1 hdiv.2, fun h => by rw [h]⟩
    rw [digits, digits, append_lt_append_iff (by simp), ih hdiv.1 hdiv.2, hsame,
      List.cons_lt_cons_iff, digitChar_lt_iff (Nat.mod_lt _ (by omega)) (Nat.mod_lt _ (by omega))]
    simp only [List.not_lt_nil, and_false, or_false]
    omega

/-- `int(text)`, for digits. -/
def number (text : List Char) : Option Nat :=
  if text.all Char.isDigit then some (text.foldl (fun n c => 10 * n + (c.toNat - '0'.toNat)) 0)
  else none

theorem number_digits {width n : Nat} (h : n < 10 ^ width) : number (digits width n) = some n := by
  have hdigit : ∀ m < 10, m.digitChar.isDigit = true ∧ m.digitChar.toNat - '0'.toNat = m := by
    decide
  have hall : ∀ width n, (digits width n).all Char.isDigit = true := by
    intro width
    induction width with
    | zero => exact fun _ => rfl
    | succ width ih =>
      intro n
      simp [digits, List.all_append, ih, (hdigit (n % 10) (Nat.mod_lt _ (by omega))).1]
  have hfold : ∀ width n, n < 10 ^ width →
      (digits width n).foldl (fun n c => 10 * n + (c.toNat - '0'.toNat)) 0 = n := by
    intro width
    induction width with
    | zero =>
      intro n hn
      simpa [digits, eq_comm] using hn
    | succ width ih =>
      intro n hn
      rw [pow_succ] at hn
      rw [digits, List.foldl_append, ih (n / 10) (by omega), List.foldl_cons, List.foldl_nil,
        (hdigit (n % 10) (Nat.mod_lt _ (by omega))).2]
      omega
  rw [number, if_pos (hall width n), hfold width n h]

/-! ## Dates -/

def isLeap (year : Nat) : Bool := year % 4 = 0 && (year % 100 ≠ 0 || year % 400 = 0)

def daysInMonth (year : Nat) : Nat → Nat
  | 2 => if isLeap year then 29 else 28
  | 4 | 6 | 9 | 11 => 30
  | _ => 31

/-- `datetime.date` -/
structure Date where
  year : Nat
  month : Nat
  day : Nat
  year_mem : 1 ≤ year ∧ year ≤ 9999
  month_mem : 1 ≤ month ∧ month ≤ 12
  day_mem : 1 ≤ day ∧ day ≤ daysInMonth year month
deriving DecidableEq

theorem daysInMonth_le (year month : Nat) : daysInMonth year month ≤ 31 := by
  unfold daysInMonth
  split
  · split <;> decide
  all_goals decide

namespace Date

instance : LT Date where
  lt a b := a.year < b.year ∨ a.year = b.year ∧
    (a.month < b.month ∨ a.month = b.month ∧ a.day < b.day)

instance : LE Date where
  le a b := ¬ b < a

theorem lt_def (a b : Date) : a < b ↔ a.year < b.year ∨ a.year = b.year ∧
    (a.month < b.month ∨ a.month = b.month ∧ a.day < b.day) := Iff.rfl

theorem le_def (a b : Date) : a ≤ b ↔ ¬ b < a := Iff.rfl

instance : DecidableLT Date := fun a b => decidable_of_iff _ (lt_def a b).symm

instance : DecidableLE Date := fun a b => decidable_of_iff _ (le_def a b).symm

theorem le_of_not_le {a b c : Date} (hab : ¬ b ≤ a) (hca : c ≤ a) : c ≤ b := by
  rw [le_def, lt_def] at *
  omega

/-- `d.isoformat()` -/
def isoformat (d : Date) : String :=
  String.ofList (digits 4 d.year ++ '-' :: (digits 2 d.month ++ '-' :: digits 2 d.day))

theorem toList_isoformat (d : Date) : d.isoformat.toList =
    digits 4 d.year ++ '-' :: (digits 2 d.month ++ '-' :: digits 2 d.day) :=
  String.toList_ofList

theorem length_isoformat (d : Date) : d.isoformat.toList.length = 10 := by
  simp [toList_isoformat]

theorem day_lt (d : Date) : d.day < 100 := by
  have hlast := daysInMonth_le d.year d.month
  have hday := d.day_mem.2
  omega

/-- The texts of dates have the order of the dates. -/
theorem isoformat_lt_iff (a b : Date) : a.isoformat.toList < b.isoformat.toList ↔ a < b := by
  have hyear : digits 4 a.year = digits 4 b.year ↔ a.year = b.year :=
    ⟨digits_inj (by have := a.year_mem; omega) (by have := b.year_mem; omega), fun h => by rw [h]⟩
  have hmonth : digits 2 a.month = digits 2 b.month ↔ a.month = b.month :=
    ⟨digits_inj (by have := a.month_mem; omega) (by have := b.month_mem; omega),
      fun h => by rw [h]⟩
  rw [toList_isoformat, toList_isoformat, append_lt_append_iff (by simp), List.cons_lt_cons_iff,
    append_lt_append_iff (by simp), List.cons_lt_cons_iff,
    digits_lt_iff (by have := a.year_mem; omega) (by have := b.year_mem; omega),
    digits_lt_iff (by have := a.month_mem; omega) (by have := b.month_mem; omega),
    digits_lt_iff a.day_lt b.day_lt, hyear, hmonth, lt_def]
  simp

/-- `date(year, month, day)` -/
def new? (year month day : Nat) : Option Date :=
  if h : (1 ≤ year ∧ year ≤ 9999) ∧ (1 ≤ month ∧ month ≤ 12) ∧
      (1 ≤ day ∧ day ≤ daysInMonth year month) then
    some ⟨year, month, day, h.1, h.2.1, h.2.2⟩
  else none

theorem new?_self (d : Date) : new? d.year d.month d.day = some d :=
  dif_pos ⟨d.year_mem, d.month_mem, d.day_mem⟩

/-- `date.fromisoformat(text)`, of a text of ten characters. -/
def fromisoformat (text : List Char) : Option Date :=
  match text with
  | [y₁, y₂, y₃, y₄, '-', m₁, m₂, '-', d₁, d₂] => do
    let year ← number [y₁, y₂, y₃, y₄]
    let month ← number [m₁, m₂]
    let day ← number [d₁, d₂]
    new? year month day
  | _ => none

theorem fromisoformat_isoformat (d : Date) : fromisoformat d.isoformat.toList = some d := by
  have hyear : number (digits 4 d.year) = some d.year :=
    number_digits (by have := d.year_mem; omega)
  have hmonth : number (digits 2 d.month) = some d.month :=
    number_digits (by have := d.month_mem; omega)
  have hday : number (digits 2 d.day) = some d.day := number_digits d.day_lt
  rw [toList_isoformat]
  simp only [digits, List.nil_append, List.cons_append] at hyear hmonth hday ⊢
  simp only [fromisoformat, hyear, hmonth, hday, Option.bind_eq_bind, Option.bind_some]
  exact new?_self d

/-! ## The day after -/

/-- `d + timedelta(days=1)`. After the last date it overflows. -/
def next (d : Date) : Option Date :=
  if d.day < daysInMonth d.year d.month then new? d.year d.month (d.day + 1)
  else if d.month < 12 then new? d.year (d.month + 1) 1
  else new? (d.year + 1) 1 1

theorem new?_eq_some_iff {year month day : Nat} {d : Date} :
    new? year month day = some d ↔ d.year = year ∧ d.month = month ∧ d.day = day := by
  unfold new?
  constructor
  · intro h
    split at h
    · cases h
      exact ⟨rfl, rfl, rfl⟩
    · cases h
  · rintro ⟨rfl, rfl, rfl⟩
    exact new?_self d

/-- Between a date and the next there is no other. -/
theorem lt_next_iff {d e n : Date} (h : e.next = some n) : d < n ↔ d ≤ e := by
  have hday := d.day_mem
  have hmonth := d.month_mem
  rw [le_def, lt_def, lt_def]
  unfold next at h
  split at h
  · obtain ⟨hy, hm, hd⟩ := new?_eq_some_iff.mp h
    omega
  · rename_i hlast
    -- On the last day of its month `e` is not before a day of that month.
    have hsame : d.year = e.year → d.month = e.month → d.day ≤ e.day := by
      intro hyear hmonth
      rw [hyear, hmonth] at hday
      omega
    split at h
    · obtain ⟨hy, hm, hd⟩ := new?_eq_some_iff.mp h
      omega
    · obtain ⟨hy, hm, hd⟩ := new?_eq_some_iff.mp h
      have he := e.month_mem
      omega

theorem next_eq_none_iff (d : Date) :
    d.next = none ↔ d.year = 9999 ∧ d.month = 12 ∧ d.day = 31 := by
  have hyear := d.year_mem
  have hmonth := d.month_mem
  have hday := d.day_mem
  have hfirst : ∀ year month, 1 ≤ daysInMonth year month := by
    intro year month
    unfold daysInMonth
    split
    · split <;> decide
    all_goals decide
  have hdecember : daysInMonth d.year 12 = 31 := rfl
  unfold next new?
  split_ifs with hinner hdate hbefore hdate' hdate''
  · exact iff_of_false nofun (by
      rintro ⟨-, hm, hd⟩
      rw [hm, hd] at hinner
      omega)
  · exact absurd ⟨hyear, hmonth, Nat.le_add_left 1 _, hinner⟩ hdate
  · exact iff_of_false nofun (by omega)
  · exact absurd ⟨hyear, ⟨Nat.le_add_left 1 _, hbefore⟩, le_refl 1, hfirst _ _⟩ hdate'
  · exact iff_of_false nofun (by omega)
  · have hm : d.month = 12 := by omega
    have hlimit : ¬ d.year + 1 ≤ 9999 := fun h =>
      hdate'' ⟨⟨Nat.le_add_left 1 _, h⟩, ⟨le_refl 1, by omega⟩, le_refl 1, hfirst _ _⟩
    rw [hm] at hinner
    rw [hm] at hday
    exact iff_of_true rfl ⟨by omega, hm, by omega⟩

/-! ## Ordinals and weeks -/

def daysBeforeYear (year : Nat) : Nat :=
  let y := year - 1
  y * 365 + y / 4 - y / 100 + y / 400

def daysBeforeMonth (year month : Nat) : Nat :=
  ((List.range (month - 1)).map fun m => daysInMonth year (m + 1)).sum

/-- `d.toordinal()` -/
def toordinal (d : Date) : Nat := daysBeforeYear d.year + daysBeforeMonth d.year d.month + d.day

/-- The ordinal of the Monday of the first ISO week of a year: the week of its first Thursday. -/
def isoWeek1Monday (year : Nat) : Int :=
  let firstDay : Int := daysBeforeYear year + 1
  let firstWeekday := (firstDay + 6) % 7
  let week1Monday := firstDay - firstWeekday
  if 3 < firstWeekday then week1Monday + 7 else week1Monday

/-- Year and week of `d.isocalendar()`. -/
def isocalendar (d : Date) : Nat × Int :=
  let today : Int := d.toordinal
  let week := (today - isoWeek1Monday d.year) / 7
  if week < 0 then (d.year - 1, (today - isoWeek1Monday (d.year - 1)) / 7 + 1)
  else if 52 ≤ week ∧ isoWeek1Monday (d.year + 1) ≤ today then (d.year + 1, 1)
  else (d.year, week + 1)

end Date

/-! ## Times -/

/-- `datetime.datetime`, in UTC. -/
structure DateTime where
  date : Date
  hour : Nat
  minute : Nat
  second : Nat
  microsecond : Nat
  hour_lt : hour < 24
  minute_lt : minute < 60
  second_lt : second < 60
  microsecond_lt : microsecond < 1000000
deriving DecidableEq

namespace DateTime

/-- What follows the date in the text of a time. -/
def clock (t : DateTime) : List Char :=
  'T' :: (digits 2 t.hour ++ ':' :: (digits 2 t.minute ++ ':' :: (digits 2 t.second ++
    ((if t.microsecond = 0 then [] else '.' :: digits 6 t.microsecond) ++ "+00:00".toList))))

/-- `t.isoformat()` -/
def isoformat (t : DateTime) : String := t.date.isoformat ++ String.ofList t.clock

theorem toList_isoformat (t : DateTime) :
    t.isoformat.toList = t.date.isoformat.toList ++ t.clock := by
  simp [isoformat]

/-- The text of a time is before that of a date where its day is. -/
theorem isoformat_lt_iff (t : DateTime) (d : Date) : t.isoformat < d.isoformat ↔ t.date < d := by
  have hsame : t.date.isoformat.toList.length = d.isoformat.toList.length := by
    rw [Date.length_isoformat, Date.length_isoformat]
  have happend := append_lt_append_iff hsame t.clock []
  rw [List.append_nil] at happend
  rw [String.lt_iff_toList_lt, toList_isoformat, happend, Date.isoformat_lt_iff]
  simp

/-- `t.isoformat()[:10]` -/
theorem take_isoformat (t : DateTime) :
    t.isoformat.toList.take 10 = t.date.isoformat.toList := by
  rw [toList_isoformat, ← Date.length_isoformat t.date, List.take_left]

end DateTime

end dates
