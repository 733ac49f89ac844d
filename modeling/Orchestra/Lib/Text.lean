-- Strings as Python reads them: one string starts or ends with another one or
-- holds it, it falls into lines, or a pattern of the shell matches it. All of it
-- is said by the list of letters.
import Mathlib.Data.List.Infix
import Mathlib.Data.List.TakeWhile

namespace texts

/-- As many texts as there are numbers. -/
def unary (n : Nat) : String := String.ofList (List.replicate n 'a')

theorem unary_injective : Function.Injective unary := by
  intro n m h
  have hlength := congrArg String.length h
  simpa [unary] using hlength

/-! ## Tests and cuts -/

/-- `s.startswith(p)` -/
def startsWith (s p : String) : Bool := p.toList.isPrefixOf s.toList

/-- `s.endswith(p)` -/
def endsWith (s p : String) : Bool := p.toList.isSuffixOf s.toList

/-- `s[:-n]` for a positive `n`. -/
def dropEnd (s : String) (n : Nat) : String := String.ofList (s.toList.take (s.toList.length - n))

theorem startsWith_iff (s p : String) : startsWith s p = true ↔ p.toList <+: s.toList :=
  List.isPrefixOf_iff_prefix

theorem endsWith_iff (s p : String) : endsWith s p = true ↔ ∃ x, s = x ++ p := by
  unfold endsWith
  rw [List.isSuffixOf_iff_suffix]
  constructor
  · intro h
    obtain ⟨l, hl⟩ := h
    refine ⟨String.ofList l, String.ext ?_⟩
    simp [hl]
  · intro h
    obtain ⟨x, hx⟩ := h
    exact ⟨x.toList, by simp [hx]⟩

@[simp] theorem dropEnd_append (x p : String) : dropEnd (x ++ p) p.toList.length = x := by
  apply String.ext
  simp [dropEnd]

theorem startsWith_trans {r s p : String} (hr : startsWith r s = true)
    (hs : startsWith s p = true) : startsWith r p = true := by
  rw [startsWith_iff] at *
  exact hs.trans hr

/-- A start of `s` with one more letter is a start of `s` alone, when its last
letter is another one. -/
theorem startsWith_of_push {s p : String} {a b : Char} (hne : b ≠ a)
    (h : startsWith (s ++ a.toString) (p ++ b.toString) = true) :
    startsWith s (p ++ b.toString) = true := by
  rw [startsWith_iff] at *
  simp only [String.toList_append, Char.toString, String.toList_singleton] at *
  rcases List.prefix_concat_iff.mp h with heq | hpre
  · have hlast := congrArg List.getLast? heq
    simp at hlast
    exact absurd hlast hne
  · exact hpre

/-! ## Words and lines -/

/-- `c.isspace()` -/
def isSpace (c : Char) : Bool :=
  let n := c.toNat
  9 ≤ n && n ≤ 13 || 28 ≤ n && n ≤ 32 || n = 0x85 || n = 0xA0 || n = 0x1680 ||
    0x2000 ≤ n && n ≤ 0x200A || n = 0x2028 || n = 0x2029 || n = 0x202F || n = 0x205F || n = 0x3000

/-- `s.strip()` -/
def strip (s : String) : String :=
  String.ofList ((s.toList.dropWhile isSpace).reverse.dropWhile isSpace).reverse

/-- The letters of a text that are no blanks. -/
def solid (l : List Char) : Nat := l.countP fun c => !isSpace c

theorem solid_append (l m : List Char) : solid (l ++ m) = solid l + solid m :=
  List.countP_append

theorem solid_dropWhile (l : List Char) : solid (l.dropWhile isSpace) = solid l := by
  unfold solid
  induction l with
  | nil => rfl
  | cons c l ih =>
    by_cases hc : isSpace c = true
    · rw [List.dropWhile_cons_of_pos hc, ih, List.countP_cons_of_neg (by simp [hc])]
    · rw [List.dropWhile_cons_of_neg hc]

theorem solid_strip (s : String) : solid (strip s).toList = solid s.toList := by
  have hreverse : ∀ l, solid l.reverse = solid l := fun l => List.countP_reverse
  unfold strip
  rw [String.toList_ofList, hreverse, solid_dropWhile, hreverse, solid_dropWhile]

/-- What stands before the first `p` and after it. -/
def cutAt (p : List Char) : List Char → Option (List Char × List Char)
  | [] => if p.isEmpty then some ([], []) else none
  | c :: rest =>
    if p.isPrefixOf (c :: rest) then some ([], (c :: rest).drop p.length)
    else (cutAt p rest).map (fun parts => (c :: parts.1, parts.2))

/-- `p in s` -/
def contains (s p : String) : Bool := (cutAt p.toList s.toList).isSome

theorem isSome_cutAt_iff (p l : List Char) : (cutAt p l).isSome = true ↔ p <:+: l := by
  induction l with
  | nil =>
    unfold cutAt
    cases p <;> simp
  | cons c rest ih =>
    unfold cutAt
    rw [List.infix_cons_iff, ← List.isPrefixOf_iff_prefix]
    by_cases hpre : p.isPrefixOf (c :: rest) = true
    · simp [hpre]
    · simp [hpre, ih]

theorem contains_iff (s p : String) : contains s p = true ↔ p.toList <:+: s.toList :=
  isSome_cutAt_iff p.toList s.toList

theorem contains_append (s p : String) : contains (s ++ p) p = true := by
  rw [contains_iff, String.toList_append]
  exact (List.suffix_append ..).isInfix

/-- `l` falls into `before`, its first `p`, and `after`. -/
structure FirstCut (p l before after : List Char) : Prop where
  parts : l = before ++ p ++ after
  first : ∀ b a, l = b ++ p ++ a → before.length ≤ b.length

theorem FirstCut.unique {p l b a b' a' : List Char} (h : FirstCut p l b a)
    (h' : FirstCut p l b' a') : b = b' ∧ a = a' := by
  have hlength : b.length = b'.length :=
    Nat.le_antisymm (h.first _ _ h'.parts) (h'.first _ _ h.parts)
  have hsame : b ++ (p ++ a) = b' ++ (p ++ a') := by
    rw [← List.append_assoc, ← List.append_assoc, ← h.parts, ← h'.parts]
  obtain ⟨hb, ha⟩ := List.append_inj hsame hlength
  exact ⟨hb, List.append_cancel_left ha⟩

theorem firstCut_of_cutAt {p l before after : List Char} (h : cutAt p l = some (before, after)) :
    FirstCut p l before after := by
  induction l generalizing before after with
  | nil =>
    unfold cutAt at h
    split at h
    · rename_i hp
      cases h
      exact ⟨by simpa using hp, fun b a _ => Nat.zero_le _⟩
    · cases h
  | cons c rest ih =>
    unfold cutAt at h
    split at h
    · rename_i hpre
      cases h
      refine ⟨?_, fun b a _ => Nat.zero_le _⟩
      obtain ⟨t, ht⟩ := List.isPrefixOf_iff_prefix.mp hpre
      rw [← ht]
      simp
    · rename_i hpre
      obtain ⟨parts, hparts, hcut⟩ := Option.map_eq_some_iff.mp h
      cases hcut
      have hrest := ih hparts
      refine ⟨by rw [hrest.parts]; simp, fun b a hb => ?_⟩
      cases b with
      | nil => exact absurd (List.isPrefixOf_iff_prefix.mpr ⟨a, hb.symm⟩) hpre
      | cons d b =>
        simp only [List.cons_append, List.cons.injEq] at hb
        exact Nat.succ_le_succ (hrest.first b a hb.2)

theorem cutAt_eq_some_iff {p l before after : List Char} :
    cutAt p l = some (before, after) ↔ FirstCut p l before after := by
  constructor
  · exact firstCut_of_cutAt
  · intro h
    have hsome : (cutAt p l).isSome = true :=
      (isSome_cutAt_iff p l).mpr ⟨before, after, h.parts.symm⟩
    obtain ⟨parts, hparts⟩ := Option.isSome_iff_exists.mp hsome
    obtain ⟨hb, ha⟩ := (firstCut_of_cutAt hparts).unique h
    rw [hparts, ← hb, ← ha]

theorem FirstCut.append {p l b a : List Char} (h : FirstCut p l b a) (m : List Char) :
    FirstCut p (l ++ m) b (a ++ m) := by
  refine ⟨by rw [h.parts]; simp, fun b' a' hb' => Nat.le_of_not_lt fun hlt => ?_⟩
  have hl : (b' ++ p).length ≤ l.length := by
    rw [h.parts]
    simp only [List.length_append]
    omega
  have hpre : b' ++ p <+: l :=
    List.prefix_of_prefix_length_le ⟨a', hb'.symm⟩ (List.prefix_append l m) hl
  obtain ⟨a'', ha''⟩ := hpre
  exact Nat.not_le.mpr hlt (h.first b' a'' ha''.symm)

/-- Letters in which no `p` begins stand before the first one. -/
theorem cutAt_append {p m : List Char} (l : List Char)
    (h : ∀ t, t <:+ m → t ≠ [] → ¬ p <+: t ++ l) :
    cutAt p (m ++ l) = (cutAt p l).map fun parts => (m ++ parts.1, parts.2) := by
  induction m with
  | nil => simp
  | cons c m ih =>
    have hpre : ¬ p.isPrefixOf (c :: (m ++ l)) = true := fun hp =>
      h (c :: m) List.suffix_rfl (List.cons_ne_nil _ _) (List.isPrefixOf_iff_prefix.mp hp)
    rw [List.cons_append, cutAt, if_neg hpre,
      ih fun t ht hne => h t (ht.trans (List.suffix_cons c m)) hne, Option.map_map]
    rfl

/-- `s.find(p, start)` -/
def find (p l : List Char) (start : Nat) : Option Nat :=
  (cutAt p (l.drop start)).map fun parts => start + parts.1.length

theorem find_eq_some {p l b a : List Char} {start : Nat} (h : FirstCut p (l.drop start) b a) :
    find p l start = some (start + b.length) := by
  unfold find
  rw [cutAt_eq_some_iff.mpr h]
  rfl

theorem find_eq_none {p l : List Char} {start : Nat} (h : cutAt p (l.drop start) = none) :
    find p l start = none := by
  unfold find
  rw [h]
  rfl

/-- `s.split(p)[0]` -/
def before (s p : String) : String :=
  match cutAt p.toList s.toList with
  | some parts => String.ofList parts.1
  | none => s

/-- `s.split(p, 1)[1]`, for a `p` that is in `s`. -/
def after (s p : String) : String :=
  match cutAt p.toList s.toList with
  | some parts => String.ofList parts.2
  | none => ""

/-- A letter that ends a line for `splitlines`. -/
def endsLine (c : Char) : Bool :=
  let n := c.toNat
  10 ≤ n && n ≤ 13 || 28 ≤ n && n ≤ 30 || n = 0x85 || n = 0x2028 || n = 0x2029

/-- The lines of a text, from the letters `line` of the line so far on, the last
one first. -/
def linesFrom (line : List Char) : List Char → List String
  | [] => if line.isEmpty then [] else [String.ofList line.reverse]
  | '\r' :: '\n' :: rest => String.ofList line.reverse :: linesFrom [] rest
  | c :: rest =>
    if endsLine c then String.ofList line.reverse :: linesFrom [] rest
    else linesFrom (c :: line) rest

/-- `s.splitlines()` -/
def splitlines (s : String) : List String := linesFrom [] s.toList

/-- `s.lower()`, of the letters from A to Z. -/
def lower (s : String) : String := String.ofList (s.toList.map Char.toLower)

/-- `s.upper()`, of the letters from a to z. -/
def upper (s : String) : String := String.ofList (s.toList.map Char.toUpper)

/-- `s.title()` of a single word. -/
def title (s : String) : String :=
  match s.toList with
  | [] => ""
  | c :: rest => String.ofList (c.toUpper :: rest.map Char.toLower)

/-- `s[:n]` -/
def cut (s : String) (n : Nat) : String := String.ofList (s.toList.take n)

/-- The letters without those of each `p`, of which `skip` are still to be left out. -/
def dropAll (p : List Char) : Nat → List Char → List Char
  | _, [] => []
  | skip + 1, _ :: rest => dropAll p skip rest
  | 0, c :: rest =>
    if p.isPrefixOf (c :: rest) then dropAll p (p.length - 1) rest else c :: dropAll p 0 rest

/-- `s.replace(p, "")` for a `p` that is not empty. -/
def remove (s p : String) : String := String.ofList (dropAll p.toList 0 s.toList)

example : splitlines "a\r\n\nb\n" = ["a", "", "b"] ∧ strip " \tx y\n" = "x y" ∧
    after "Step 1: go: on" ":" = " go: on" ∧ before "Step 1: go" ":" = "Step 1" ∧
    remove "AgentLegalAgents" "Agent" = "Legals" := by decide +kernel

/-! ## Where a part stands -/

theorem toList_strip (s : String) :
    (strip s).toList = ((s.toList.dropWhile isSpace).reverse.dropWhile isSpace).reverse := by
  unfold strip
  rw [String.toList_ofList]

theorem dropWhile_append_stop {l m : List Char} {a : Char} (hm : m.head? = some a)
    (ha : isSpace a = false) : (l ++ m).dropWhile isSpace = l.dropWhile isSpace ++ m := by
  obtain ⟨t, rfl⟩ := List.head?_eq_some_iff.mp hm
  induction l with
  | nil => exact List.dropWhile_cons_of_neg (by simp [ha])
  | cons c l ih =>
    rw [List.cons_append]
    by_cases hc : isSpace c = true
    · rw [List.dropWhile_cons_of_pos hc, List.dropWhile_cons_of_pos hc, ih]
    · rw [List.dropWhile_cons_of_neg hc, List.dropWhile_cons_of_neg hc, List.cons_append]

/-- Only what stands around `m` is stripped, where `m` has no blank at its ends. -/
theorem strip_around {l m r : List Char} {a b : Char} (hfirst : m.head? = some a)
    (ha : isSpace a = false) (hlast : m.getLast? = some b) (hb : isSpace b = false) :
    (strip (String.ofList (l ++ m ++ r))).toList =
      l.dropWhile isSpace ++ m ++ (r.reverse.dropWhile isSpace).reverse := by
  have hm : (m ++ r).head? = some a := by
    obtain ⟨t, rfl⟩ := List.head?_eq_some_iff.mp hfirst
    rfl
  have hback : (m.reverse ++ (l.dropWhile isSpace).reverse).head? = some b := by
    rw [← List.reverse_append, List.head?_reverse, List.getLast?_append, hlast]
    rfl
  rw [toList_strip, String.toList_ofList, List.append_assoc, dropWhile_append_stop hm ha,
    List.reverse_append, List.reverse_append, List.append_assoc, dropWhile_append_stop hback hb]
  simp

/-- What is stripped are blanks. -/
theorem exists_strip (s : String) : ∃ l r, s.toList = l ++ (strip s).toList ++ r ∧
    ∀ c ∈ l, isSpace c = true := by
  refine ⟨s.toList.takeWhile isSpace,
    ((s.toList.dropWhile isSpace).reverse.takeWhile isSpace).reverse, ?_,
    fun c hc => List.mem_takeWhile_imp hc⟩
  rw [toList_strip, List.append_assoc, ← List.reverse_append, List.takeWhile_append_dropWhile,
    List.reverse_reverse, List.takeWhile_append_dropWhile]

theorem before_cases (s p : String) : (¬ p.toList <:+: s.toList ∧ before s p = s) ∨
    ∃ m, s.toList = (before s p).toList ++ p.toList ++ m := by
  unfold before
  cases h : cutAt p.toList s.toList with
  | none =>
    refine .inl ⟨?_, rfl⟩
    rw [← isSome_cutAt_iff, h]
    exact nofun
  | some parts => exact .inr ⟨parts.2, by simpa using (cutAt_eq_some_iff.mp h).parts⟩

theorem prefix_before (s p : String) : (before s p).toList <+: s.toList := by
  rcases before_cases s p with ⟨-, h⟩ | ⟨m, h⟩
  · rw [h]
  · exact ⟨p.toList ++ m, by rw [h, List.append_assoc]⟩

theorem infix_after (s p : String) : (after s p).toList <:+: s.toList := by
  unfold after
  cases h : cutAt p.toList s.toList with
  | none => exact ⟨[], s.toList, rfl⟩
  | some parts =>
    refine ⟨parts.1 ++ p.toList, [], ?_⟩
    rw [(cutAt_eq_some_iff.mp h).parts]
    simp

theorem not_infix_before {s p : String} (hp : p.toList ≠ []) :
    ¬ p.toList <:+: (before s p).toList := by
  unfold before
  cases h : cutAt p.toList s.toList with
  | none =>
    rw [← isSome_cutAt_iff, h]
    exact nofun
  | some parts =>
    have hcut := cutAt_eq_some_iff.mp h
    rintro ⟨x, y, hxy⟩
    have hparts := hcut.parts
    dsimp only at hxy
    rw [String.toList_ofList] at hxy
    have hle := hcut.first x (y ++ p.toList ++ parts.2) (by rw [hparts, ← hxy]; simp)
    have hlength := congrArg List.length hxy
    have hpos := List.length_pos_iff.mpr hp
    simp only [List.length_append] at hlength
    omega

theorem infix_strip (s : String) : (strip s).toList <:+: s.toList := by
  obtain ⟨l, r, h, -⟩ := exists_strip s
  exact ⟨l, r, h.symm⟩

/-- A part that begins with `c` does not begin in letters without `c`. -/
theorem prefix_of_notMem {l r x y m : List Char} {c : Char} (hc : c ∉ l)
    (h : x ++ c :: m ++ y = l ++ r) : ∃ p, x = l ++ p ∧ r = p ++ c :: m ++ y := by
  rw [List.append_assoc] at h
  rcases List.append_eq_append_iff.mp h with ⟨w, hw, hw'⟩ | ⟨w, hw, hw'⟩
  · cases w with
    | nil => exact ⟨[], by simpa using hw.symm, by simpa using hw'.symm⟩
    | cons d w =>
      obtain ⟨rfl, -⟩ := List.cons.inj hw'
      exact absurd (by simp [hw]) hc
  · exact ⟨w, hw, by rw [hw', List.append_assoc]⟩

theorem firstCut_of_notMem {l m r : List Char} {c : Char} (hc : c ∉ l) :
    FirstCut (c :: m) (l ++ c :: m ++ r) l r := by
  refine ⟨rfl, fun x y h => ?_⟩
  rw [List.append_assoc] at h
  obtain ⟨p, rfl, -⟩ := prefix_of_notMem hc h.symm
  rw [List.length_append]
  exact Nat.le_add_right _ _

/-- A part that begins with `c` and has no `e` stands within the letters that end with `e`, where
`c` is not around them. -/
theorem parts_within {l t r x y m : List Char} {c e : Char} (hl : c ∉ l) (hr : c ∉ r)
    (ht : t.getLast? = some e) (he : e ∉ c :: m) (h : x ++ c :: m ++ y = l ++ t ++ r) :
    ∃ p q, x = l ++ p ∧ y = q ++ r ∧ t = p ++ c :: m ++ q := by
  rw [List.append_assoc l] at h
  obtain ⟨p, rfl, hp⟩ := prefix_of_notMem hl h
  obtain ⟨t, rfl⟩ := List.getLast?_eq_some_iff.mp ht
  rw [List.append_assoc] at hp
  rcases List.append_eq_append_iff.mp hp with ⟨w, hw, hw'⟩ | ⟨w, rfl, rfl⟩
  · cases w with
    | nil => exact ⟨p, [e], rfl, by simpa using hw'.symm, by rw [hw, List.append_nil]⟩
    | cons d w =>
      obtain ⟨rfl, rfl⟩ := List.cons.inj hw'
      rcases List.append_eq_append_iff.mp hw with ⟨z, -, hz⟩ | ⟨z, -, hz⟩
      · exact absurd (by simp [hz]) he
      · cases z with
        | nil =>
          obtain ⟨rfl, -⟩ := List.cons.inj hz
          exact absurd List.mem_cons_self he
        | cons d z =>
          obtain ⟨-, rfl⟩ := List.cons.inj hz
          exact absurd (by simp) hr
  · exact ⟨p, w ++ [e], rfl, by simp, by simp⟩

/-! ## Patterns of the shell -/

/-- A part of a pattern: `*`, `?`, `[..]` or a letter that stands for itself.
A range whose ends are the wrong way round holds no letter. -/
inductive GlobPart
  | star
  | one
  | oneOf (negated : Bool) (ranges : List (Char × Char))
  | letter (c : Char)
deriving DecidableEq, Repr

/-- The ranges of a `[..]`. A hyphen is a range only between two letters. -/
def globRanges : List Char → List (Char × Char)
  | a :: '-' :: b :: rest => (a, b) :: globRanges rest
  | a :: rest => (a, a) :: globRanges rest
  | [] => []

/-- The inside of a `[..]` and what follows it. A `]` right after the opening
is a letter. Without an end the bracket is a letter too. -/
def globBracket (letters : List Char) : Option (GlobPart × List Char) :=
  let (negated, body) :=
    match letters with
    | '!' :: rest => (true, rest)
    | _ => (false, letters)
  let (first, body) :=
    match body with
    | ']' :: rest => ([']'], rest)
    | _ => ([], body)
  match body.dropWhile (· ≠ ']') with
  | ']' :: rest => some (.oneOf negated (globRanges (first ++ body.takeWhile (· ≠ ']'))), rest)
  | _ => none

/-- The parts of a pattern, at most `fuel` of them. -/
def globParts : Nat → List Char → List GlobPart
  | 0, _ => []
  | _, [] => []
  | fuel + 1, '*' :: rest => .star :: globParts fuel rest
  | fuel + 1, '?' :: rest => .one :: globParts fuel rest
  | fuel + 1, '[' :: rest =>
    match globBracket rest with
    | some (part, rest) => part :: globParts fuel rest
    | none => .letter '[' :: globParts fuel rest
  | fuel + 1, c :: rest => .letter c :: globParts fuel rest

def GlobPart.accepts (c : Char) : GlobPart → Bool
  | .star | .one => true
  | .oneOf negated ranges => negated != ranges.any (fun r => r.1 ≤ c && c ≤ r.2)
  | .letter a => a = c

def globMatches : List GlobPart → List Char → Bool
  | [], letters => letters.isEmpty
  | .star :: parts, letters => letters.tails.any (globMatches parts)
  | part :: parts, c :: rest => part.accepts c && globMatches parts rest
  | _ :: _, [] => false

/-- `fnmatch.fnmatch(name, pattern)`. On a POSIX system it keeps the case. -/
def fnmatch (name pattern : String) : Bool :=
  globMatches (globParts pattern.toList.length pattern.toList) name.toList

example : fnmatch "file_read" "file_*" = true ∧ fnmatch "shell" "[!a-r]?el[l-]" = true ∧
    fnmatch "rm" "r" = false := by decide

/-! ## Texts behind each other, with a letter between them -/

/-- `s.split(c)` -/
def split (s : String) (c : Char) : List String := (s.toList.splitOn c).map String.ofList

/-- `c.join(pieces)` -/
def join (c : Char) (pieces : List String) : String := (String.singleton c).intercalate pieces

theorem toList_join (c : Char) (pieces : List String) :
    (join c pieces).toList = [c].intercalate (pieces.map String.toList) := by
  rw [join, String.toList_intercalate, String.toList_singleton]

theorem split_ne_nil (s : String) (c : Char) : split s c ≠ [] := by
  intro h
  exact List.splitOn_ne_nil c s.toList (List.map_eq_nil_iff.mp h)

/-- Texts without the letter are found again. -/
theorem split_join {c : Char} {pieces : List String} (hne : pieces ≠ [])
    (hplain : ∀ s ∈ pieces, c ∉ s.toList) : split (join c pieces) c = pieces := by
  rw [split, toList_join, List.splitOn_intercalate]
  · simp [Function.comp_def]
  · simpa using hplain
  · simpa using hne

/-- The pieces of a text make it up, whatever it is. -/
theorem join_split (s : String) (c : Char) : join c (split s c) = s := by
  apply String.toList_inj.mp
  rw [toList_join, split, List.map_map]
  simp [Function.comp_def, List.intercalate_splitOn]

/-- There is one piece more than the text has of the letter. -/
theorem length_split (s : String) (c : Char) : (split s c).length = s.toList.count c + 1 := by
  rw [split, List.length_map]
  induction s.toList with
  | nil => rfl
  | cons d l ih =>
    rw [List.splitOn_cons_eq_if_modifyHead]
    by_cases hd : d = c
    · subst hd
      simp [ih]
    · simp [hd, ih]

end texts
