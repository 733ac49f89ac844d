-- JSON texts, as the `json` module of Python writes and reads them: in ASCII, with
-- a blank after each comma and colon. What is written is read back. Numbers are
-- whole; a text with a fraction in it is not read.
import Orchestra.Lib.Dict
import Orchestra.Lib.Utf16

open dicts

namespace jsons

/-! ## Values and texts -/

inductive Json
  | null
  | bool (b : Bool)
  | int (i : Int)
  | str (s : String)
  | arr (items : List Json)
  | obj (members : List (String × Json))
deriving Repr

def quote : Char := Char.ofNat 34

def backslash : Char := Char.ofNat 92

/-- The letters with an escape of their own, each with the letter of its escape. -/
def shortEscapes : List (Char × Char) :=
  [(quote, quote), (backslash, backslash), (Char.ofNat 8, 'b'), (Char.ofNat 12, 'f'),
    (Char.ofNat 10, 'n'), (Char.ofNat 13, 'r'), (Char.ofNat 9, 't')]

/-- The four hexadecimal digits of a number below 65536. -/
def hex4 (n : Nat) : List Char :=
  [(n / 4096 % 16).digitChar, (n / 256 % 16).digitChar, (n / 16 % 16).digitChar,
    (n % 16).digitChar]

def writeUnit (n : Nat) : List Char := backslash :: 'u' :: hex4 n

/-- A letter beyond the first 65536 is written as a pair of two units. -/
def writeChar (c : Char) : List Char :=
  match shortEscapes.lookup c with
  | some letter => [backslash, letter]
  | none =>
    let n := c.toNat
    if 32 ≤ n ∧ n ≤ 126 then [c]
    else if n < 0x10000 then writeUnit n
    else writeUnit (0xD800 + (n - 0x10000) / 0x400) ++ writeUnit (0xDC00 + (n - 0x10000) % 0x400)

def writeString (s : String) : List Char := quote :: (s.toList.flatMap writeChar ++ [quote])

def writeInt (i : Int) : List Char :=
  if i < 0 then '-' :: Nat.toDigits 10 i.natAbs else Nat.toDigits 10 i.natAbs

mutual

def write : Json → List Char
  | .null => ['n', 'u', 'l', 'l']
  | .bool true => ['t', 'r', 'u', 'e']
  | .bool false => ['f', 'a', 'l', 's', 'e']
  | .int i => writeInt i
  | .str s => writeString s
  | .arr items => '[' :: (writeItems items ++ [']'])
  | .obj members => '\x7b' :: (writeMembers members ++ ['\x7d'])

def writeItems : List Json → List Char
  | [] => []
  | [item] => write item
  | item :: next :: items => write item ++ ',' :: ' ' :: writeItems (next :: items)

def writeMembers : List (String × Json) → List Char
  | [] => []
  | [(key, value)] => writeString key ++ ':' :: ' ' :: write value
  | (key, value) :: next :: members =>
    writeString key ++ ':' :: ' ' :: (write value ++ ',' :: ' ' :: writeMembers (next :: members))

end

/-- `json.dumps(value)` -/
def dumps (value : Json) : String := String.ofList (write value)

/-! ## The reader -/

def isBlank (c : Char) : Bool := c = ' ' || c = '\t' || c = '\n' || c = '\r'

def skipBlanks (l : List Char) : List Char := l.dropWhile isBlank

def hexValue (c : Char) : Option Nat :=
  let n := c.toNat
  if 48 ≤ n ∧ n ≤ 57 then some (n - 48)
  else if 97 ≤ n ∧ n ≤ 102 then some (n - 87)
  else if 65 ≤ n ∧ n ≤ 70 then some (n - 55)
  else none

/-- The unit after `\u`. -/
def readUnit : List Char → Option (Nat × List Char)
  | a :: b :: c :: d :: rest => do
    let a ← hexValue a
    let b ← hexValue b
    let c ← hexValue c
    let d ← hexValue d
    some (a * 4096 + b * 256 + c * 16 + d, rest)
  | _ => none

/-- The letter of a `\u`, which may take a second unit. Half a pair is no letter. -/
def readEscaped (l : List Char) : Option (Char × List Char) :=
  match readUnit l with
  | none => none
  | some (n, rest) =>
    if 0xD800 ≤ n ∧ n < 0xDC00 then
      match rest with
      | a :: b :: rest =>
        if a = backslash ∧ b = 'u' then
          match readUnit rest with
          | some (m, rest) =>
            if 0xDC00 ≤ m ∧ m < 0xE000 then
              some (Char.ofNat (0x10000 + (n - 0xD800) * 0x400 + (m - 0xDC00)), rest)
            else none
          | none => none
        else none
      | _ => none
    else if 0xDC00 ≤ n ∧ n < 0xE000 then none
    else some (Char.ofNat n, rest)

/-- The letter of an escape with one letter. -/
def unescape (letter : Char) : Option Char :=
  if letter = '/' then some '/'
  else (shortEscapes.find? (fun e => e.2 = letter)).map (·.1)

/-- The next letter of a string, after its opening quote. It is `none` at the
closing quote. -/
def readChar : List Char → Option (Option Char × List Char)
  | [] => none
  | c :: rest =>
    if c = quote then some (none, rest)
    else if c = backslash then
      match rest with
      | [] => none
      | letter :: rest =>
        if letter = 'u' then (readEscaped rest).map (fun p => (some p.1, p.2))
        else (unescape letter).map (fun c => (some c, rest))
    else if c.toNat < 32 then none
    else some (some c, rest)

def readString : Nat → List Char → Option (List Char × List Char)
  | 0, _ => none
  | fuel + 1, l =>
    match readChar l with
    | none => none
    | some (none, rest) => some ([], rest)
    | some (some c, rest) => (readString fuel rest).map (fun p => (c :: p.1, p.2))

/-- A number has no needless zero before it, and no fraction. -/
def readNat (l : List Char) : Option (Nat × List Char) :=
  let digits := l.takeWhile Char.isDigit
  let rest := l.dropWhile Char.isDigit
  if digits = [] ∨ digits.head? = some '0' ∧ digits.length ≠ 1 then none
  else
    match rest with
    | '.' :: _ | 'e' :: _ | 'E' :: _ => none
    | _ => some (Nat.ofDigitChars 10 digits 0, rest)

/-- A dictionary from its members: a later one wins and keeps the old place. -/
def distinctMembers (members : List (String × Json)) : List (String × Json) :=
  members.foldl (fun es e => setEntries e.1 e.2 es) []

mutual

def readValue : Nat → List Char → Option (Json × List Char)
  | 0, _ => none
  | fuel + 1, l =>
    match skipBlanks l with
    | 'n' :: 'u' :: 'l' :: 'l' :: rest => some (.null, rest)
    | 't' :: 'r' :: 'u' :: 'e' :: rest => some (.bool true, rest)
    | 'f' :: 'a' :: 'l' :: 's' :: 'e' :: rest => some (.bool false, rest)
    | '[' :: rest =>
      match skipBlanks rest with
      | ']' :: rest => some (.arr [], rest)
      | rest => (readItems fuel rest).map (fun p => (.arr p.1, p.2))
    | '\x7b' :: rest =>
      match skipBlanks rest with
      | '\x7d' :: rest => some (.obj [], rest)
      | rest => (readMembers fuel rest).map (fun p => (.obj (distinctMembers p.1), p.2))
    | '-' :: rest => (readNat rest).map (fun p => (.int (-p.1), p.2))
    | c :: rest =>
      if c = quote then (readString fuel rest).map (fun p => (.str (String.ofList p.1), p.2))
      else (readNat (c :: rest)).map (fun p => (.int p.1, p.2))
    | [] => none

def readItems : Nat → List Char → Option (List Json × List Char)
  | 0, _ => none
  | fuel + 1, l =>
    match readValue fuel l with
    | none => none
    | some (item, rest) =>
      match skipBlanks rest with
      | ',' :: rest => (readItems fuel rest).map (fun p => (item :: p.1, p.2))
      | ']' :: rest => some ([item], rest)
      | _ => none

def readMembers : Nat → List Char → Option (List (String × Json) × List Char)
  | 0, _ => none
  | fuel + 1, l =>
    match skipBlanks l with
    | [] => none
    | c :: rest =>
      if c ≠ quote then none
      else
        match readString fuel rest with
        | none => none
        | some (key, rest) =>
          match skipBlanks rest with
          | ':' :: rest =>
            match readValue fuel rest with
            | none => none
            | some (value, rest) =>
              let entry := (String.ofList key, value)
              match skipBlanks rest with
              | ',' :: rest => (readMembers fuel rest).map (fun p => (entry :: p.1, p.2))
              | '\x7d' :: rest => some ([entry], rest)
              | _ => none
          | _ => none

end

/-- `json.loads(text)` -/
def loads (text : String) : Option Json :=
  match readValue text.toList.length text.toList with
  | some (value, rest) => if skipBlanks rest = [] then some value else none
  | none => none

/-! ## Strings come back -/

theorem hexValue_digitChar {d : Nat} (h : d < 16) : hexValue d.digitChar = some d := by
  revert d
  decide

theorem readUnit_hex4 {n : Nat} (h : n < 0x10000) (rest : List Char) :
    readUnit (hex4 n ++ rest) = some (n, rest) := by
  have hdigit : ∀ m : Nat, hexValue (m % 16).digitChar = some (m % 16) :=
    fun m => hexValue_digitChar (Nat.mod_lt m (by omega))
  have hsum : n / 4096 % 16 * 4096 + n / 256 % 16 * 256 + n / 16 % 16 * 16 + n % 16 = n := by omega
  simp [hex4, readUnit, hdigit, hsum]

theorem readEscaped_unit {c : Char} (h : c.toNat < 0x10000) (rest : List Char) :
    readEscaped (hex4 c.toNat ++ rest) = some (c, rest) := by
  have hrange := utf16.toNat_cases c
  have hhigh : ¬ (0xD800 ≤ c.toNat ∧ c.toNat < 0xDC00) := by omega
  have hlow : ¬ (0xDC00 ≤ c.toNat ∧ c.toNat < 0xE000) := by omega
  unfold readEscaped
  rw [readUnit_hex4 h]
  simp only [hhigh, hlow, if_false, Char.ofNat_toNat]

theorem readEscaped_two {l l' rest : List Char} {n m : Nat}
    (hn : readUnit l = some (n, backslash :: 'u' :: l')) (hm : readUnit l' = some (m, rest))
    (hhigh : 0xD800 ≤ n ∧ n < 0xDC00) (hlow : 0xDC00 ≤ m ∧ m < 0xE000) :
    readEscaped l = some (Char.ofNat (0x10000 + (n - 0xD800) * 0x400 + (m - 0xDC00)), rest) := by
  unfold readEscaped
  rw [hn]
  simp only [if_pos hhigh, and_self, if_true]
  rw [hm]
  simp only [if_pos hlow]

theorem readEscaped_pair {c : Char} (h : 0x10000 ≤ c.toNat) (rest : List Char) :
    readEscaped (hex4 (0xD800 + (c.toNat - 0x10000) / 0x400) ++
      (writeUnit (0xDC00 + (c.toNat - 0x10000) % 0x400) ++ rest)) = some (c, rest) := by
  have hrange := utf16.toNat_cases c
  have hsum : 0x10000 + (0xD800 + (c.toNat - 0x10000) / 0x400 - 0xD800) * 0x400 +
      (0xDC00 + (c.toNat - 0x10000) % 0x400 - 0xDC00) = c.toNat := by omega
  have hfirst := readUnit_hex4 (n := 0xD800 + (c.toNat - 0x10000) / 0x400) (by omega)
    (backslash :: 'u' :: (hex4 (0xDC00 + (c.toNat - 0x10000) % 0x400) ++ rest))
  have hsecond := readUnit_hex4 (n := 0xDC00 + (c.toNat - 0x10000) % 0x400) (by omega) rest
  have hboth := readEscaped_two hfirst hsecond (by omega) (by omega)
  rw [hsum, Char.ofNat_toNat] at hboth
  exact hboth

theorem readChar_short {c letter : Char} (h : shortEscapes.lookup c = some letter)
    (rest : List Char) : readChar (backslash :: letter :: rest) = some (some c, rest) := by
  have htable : ∀ e ∈ shortEscapes, e.2 ≠ 'u' ∧ unescape e.2 = some e.1 := by decide
  have hmem : (c, letter) ∈ shortEscapes := by
    obtain ⟨before, after, heq, -⟩ := List.lookup_eq_some_iff.mp h
    rw [heq]
    exact List.mem_append_right _ (List.mem_cons_self ..)
  obtain ⟨hu, hback⟩ := htable _ hmem
  have hquote : backslash ≠ quote := by decide
  simp only [readChar, hquote, if_false, if_true, hu]
  simp only at hback
  rw [hback]
  rfl

theorem readChar_writeChar (c : Char) (rest : List Char) :
    readChar (writeChar c ++ rest) = some (some c, rest) := by
  unfold writeChar
  rcases hshort : shortEscapes.lookup c with _ | letter
  · have hnot : c ≠ quote ∧ c ≠ backslash := by
      constructor <;> (rintro rfl; simp [shortEscapes] at hshort)
    have hquote : backslash ≠ quote := by decide
    simp only
    by_cases hplain : 32 ≤ c.toNat ∧ c.toNat ≤ 126
    · have hcontrol : ¬ c.toNat < 32 := by omega
      simp [hplain, readChar, hnot.1, hnot.2, hcontrol]
    · by_cases hone : c.toNat < 0x10000
      · simp only [hplain, hone, if_false, if_true, writeUnit, List.cons_append, readChar, hquote]
        rw [readEscaped_unit hone]
        rfl
      · simp only [hplain, hone, if_false, List.append_assoc]
        simp only [writeUnit, List.cons_append, readChar, hquote, if_false, if_true]
        have hpair := readEscaped_pair (Nat.not_lt.mp hone) rest
        simp only [writeUnit, List.cons_append] at hpair
        rw [hpair]
        rfl
  · exact readChar_short hshort rest

theorem writeChar_ne_nil (c : Char) : 0 < (writeChar c).length := by
  unfold writeChar
  split
  · simp
  · simp only
    split
    · simp
    · split <;> simp [writeUnit]

theorem readString_write (letters rest : List Char) {fuel : Nat}
    (h : (letters.flatMap writeChar).length < fuel) :
    readString fuel (letters.flatMap writeChar ++ quote :: rest) = some (letters, rest) := by
  induction letters generalizing fuel with
  | nil =>
    obtain ⟨n, rfl⟩ : ∃ n, fuel = n + 1 := ⟨fuel - 1, by omega⟩
    simp [readString, readChar]
  | cons c letters ih =>
    have hpos := writeChar_ne_nil c
    simp only [List.flatMap_cons, List.length_append] at h
    obtain ⟨n, rfl⟩ : ∃ n, fuel = n + 1 := ⟨fuel - 1, by omega⟩
    simp only [List.flatMap_cons, List.append_assoc, readString, readChar_writeChar]
    rw [ih (by omega)]
    rfl

/-! ## Numbers come back -/

/-- What may follow a value: nothing that would go on with a number. -/
def Ends (rest : List Char) : Prop :=
  ∀ c, rest.head? = some c → c.isDigit = false ∧ c ≠ '.' ∧ c ≠ 'e' ∧ c ≠ 'E'

theorem ends_nil : Ends [] := by
  intro c h
  cases h

theorem ends_cons {c : Char} (rest : List Char) (h : c = ',' ∨ c = ']' ∨ c = '\x7d') :
    Ends (c :: rest) := by
  intro d hd
  cases hd
  rcases h with rfl | rfl | rfl <;> decide

theorem isDigit_of_mem_toDigits {n : Nat} {c : Char} (h : c ∈ Nat.toDigits 10 n) :
    c.isDigit = true := Nat.isDigit_of_mem_toDigits (by omega) (by omega) h

/-- A letter of ASCII that is no control letter. -/
def Printed (c : Char) : Prop := 32 ≤ c.toNat ∧ c.toNat ≤ 126

instance (c : Char) : Decidable (Printed c) := inferInstanceAs (Decidable (_ ∧ _))

theorem printed_writeUnit (n : Nat) : ∀ d ∈ writeUnit n, Printed d := by
  have hdigits : ∀ k < 16, Printed k.digitChar := by decide
  intro d hd
  simp only [writeUnit, hex4, List.mem_cons, List.not_mem_nil, or_false] at hd
  rcases hd with rfl | rfl | rfl | rfl | rfl | rfl
  · decide
  · decide
  · exact hdigits _ (Nat.mod_lt _ (by omega))
  · exact hdigits _ (Nat.mod_lt _ (by omega))
  · exact hdigits _ (Nat.mod_lt _ (by omega))
  · exact hdigits _ (Nat.mod_lt _ (by omega))

theorem printed_writeChar (c : Char) : ∀ d ∈ writeChar c, Printed d := by
  have htable : ∀ e ∈ shortEscapes, Printed e.2 := by decide
  unfold writeChar
  split
  · rename_i letter hshort
    obtain ⟨before, after, heq, -⟩ := List.lookup_eq_some_iff.mp hshort
    have hletter := htable (c, letter) (by rw [heq]; simp)
    intro d hd
    rcases List.mem_cons.mp hd with rfl | hd
    · decide
    · rw [List.mem_singleton.mp hd]
      exact hletter
  · dsimp only
    split
    · rename_i hplain
      intro d hd
      rw [List.mem_singleton.mp hd]
      exact hplain
    · split
      · exact printed_writeUnit _
      · intro d hd
        rcases List.mem_append.mp hd with hd | hd
        · exact printed_writeUnit _ d hd
        · exact printed_writeUnit _ d hd

theorem printed_writeString (s : String) : ∀ d ∈ writeString s, Printed d := by
  intro d hd
  rcases List.mem_cons.mp hd with rfl | hd
  · decide
  rcases List.mem_append.mp hd with hd | hd
  · obtain ⟨c, -, hc⟩ := List.mem_flatMap.mp hd
    exact printed_writeChar c d hc
  · rw [List.mem_singleton.mp hd]
    decide

theorem printed_writeInt (i : Int) : ∀ d ∈ writeInt i, Printed d := by
  have hdigits : ∀ d ∈ Nat.toDigits 10 i.natAbs, Printed d := by
    intro d hd
    have hdigit := isDigit_of_mem_toDigits hd
    simp only [Char.isDigit, Bool.and_eq_true, decide_eq_true_eq, UInt32.le_iff_toNat_le] at hdigit
    obtain ⟨hlow, hhigh⟩ := hdigit
    have hlow' : 48 ≤ d.toNat := hlow
    have hhigh' : d.toNat ≤ 57 := hhigh
    exact ⟨by omega, by omega⟩
  unfold writeInt
  split
  · intro d hd
    rcases List.mem_cons.mp hd with rfl | hd
    · decide
    · exact hdigits d hd
  · exact hdigits

/-- Only the number 0 starts with the digit 0. -/
theorem head_toDigits_ne {n : Nat} (h : 0 < n) : (Nat.toDigits 10 n).head? ≠ some '0' := by
  induction n using Nat.strongRecOn with
  | ind n ih =>
    rw [Nat.toDigits_eq_if (by omega)]
    by_cases hn : n < 10
    · have hsmall : ∀ m < 10, 0 < m → [m.digitChar].head? ≠ some '0' := by decide
      rw [if_pos hn]
      exact hsmall n hn h
    · rw [if_neg hn, List.head?_append_of_ne_nil _ Nat.toDigits_ne_nil]
      exact ih (n / 10) (by omega) (by omega)

theorem readNat_toDigits (n : Nat) {rest : List Char} (hrest : Ends rest) :
    readNat (Nat.toDigits 10 n ++ rest) = some (n, rest) := by
  have hdigits : ∀ c ∈ Nat.toDigits 10 n, c.isDigit = true := fun c => isDigit_of_mem_toDigits
  have hstop : rest.takeWhile Char.isDigit = [] ∧ rest.dropWhile Char.isDigit = rest := by
    cases rest with
    | nil => exact ⟨rfl, rfl⟩
    | cons c rest =>
      have hc := (hrest c rfl).1
      simp [hc]
  have htake : (Nat.toDigits 10 n ++ rest).takeWhile Char.isDigit = Nat.toDigits 10 n := by
    rw [List.takeWhile_append_of_pos hdigits, hstop.1, List.append_nil]
  have hdrop : (Nat.toDigits 10 n ++ rest).dropWhile Char.isDigit = rest := by
    rw [List.dropWhile_append_of_pos hdigits, hstop.2]
  have hproper : ¬ (Nat.toDigits 10 n = [] ∨
      (Nat.toDigits 10 n).head? = some '0' ∧ (Nat.toDigits 10 n).length ≠ 1) := by
    rintro (hnil | ⟨hzero, hlength⟩)
    · exact Nat.toDigits_ne_nil hnil
    · rcases Nat.eq_zero_or_pos n with rfl | hpos
      · exact hlength rfl
      · exact head_toDigits_ne hpos hzero
  unfold readNat
  simp only [htake, hdrop, hproper, if_false, Nat.ofDigitChars_ten_toDigits]
  split
  · exact absurd rfl (hrest '.' rfl).2.1
  · exact absurd rfl (hrest 'e' rfl).2.2.1
  · exact absurd rfl (hrest 'E' rfl).2.2.2
  · rfl

/-! ## Values come back -/

mutual

/-- No object of the value has a key twice. -/
def Json.Distinct : Json → Prop
  | .arr items => DistinctItems items
  | .obj members => (members.map Prod.fst).Nodup ∧ DistinctMembers members
  | _ => True

def DistinctItems : List Json → Prop
  | [] => True
  | item :: items => item.Distinct ∧ DistinctItems items

def DistinctMembers : List (String × Json) → Prop
  | [] => True
  | (_, value) :: members => value.Distinct ∧ DistinctMembers members

end

theorem foldl_setEntries {members acc : List (String × Json)}
    (h : ((acc ++ members).map Prod.fst).Nodup) :
    members.foldl (fun es e => setEntries e.1 e.2 es) acc = acc ++ members := by
  induction members generalizing acc with
  | nil => simp
  | cons e members ih =>
    rw [List.append_cons] at h
    have hacc : ((acc ++ [e]).map Prod.fst).Nodup :=
      h.sublist ((List.sublist_append_left _ _).map _)
    rw [List.map_append, List.nodup_append] at hacc
    have hnot : e.1 ∉ acc.map Prod.fst :=
      fun hmem => hacc.2.2 e.1 hmem e.1 (by simp) rfl
    have hset := Dict.entries_set_of_not_mem (d := ⟨acc, hacc.1⟩) hnot e.2
    have hstep : setEntries e.1 e.2 acc = acc ++ [e] := hset
    rw [List.foldl_cons, hstep, ih h, List.append_assoc]
    rfl

theorem distinctMembers_of_nodup {members : List (String × Json)}
    (h : (members.map Prod.fst).Nodup) : distinctMembers members = members :=
  foldl_setEntries h

theorem skipBlanks_cons {c : Char} (h : isBlank c = false) (l : List Char) :
    skipBlanks (c :: l) = c :: l := by
  simp [skipBlanks, h]

theorem isBlank_of_isDigit {c : Char} (h : c.isDigit = true) : isBlank c = false := by
  simp only [isBlank, Bool.or_eq_false_iff, decide_eq_false_iff_not]
  refine ⟨⟨⟨?_, ?_⟩, ?_⟩, ?_⟩ <;> (rintro rfl; cases h)

theorem readValue_blank (fuel : Nat) (l : List Char) :
    readValue fuel (' ' :: l) = readValue fuel l := by
  cases fuel with
  | zero => simp [readValue]
  | succ fuel =>
    have hskip : skipBlanks (' ' :: l) = skipBlanks l := rfl
    simp only [readValue, hskip]

theorem readMembers_blank (fuel : Nat) (l : List Char) :
    readMembers fuel (' ' :: l) = readMembers fuel l := by
  cases fuel with
  | zero => simp [readMembers]
  | succ fuel =>
    have hskip : skipBlanks (' ' :: l) = skipBlanks l := rfl
    simp only [readMembers, hskip]

theorem readValue_digits (fuel : Nat) {c : Char} (h : c.isDigit = true) (l : List Char) :
    readValue (fuel + 1) (c :: l) = (readNat (c :: l)).map (fun p => (.int p.1, p.2)) := by
  unfold readValue
  rw [skipBlanks_cons (isBlank_of_isDigit h)]
  split
  all_goals try (rename_i heq; cases heq; cases h)
  · rename_i heq
    cases heq
    have hquote : c ≠ quote := by
      rintro rfl
      cases h
    rw [if_neg hquote]
  · rename_i heq
    cases heq

theorem readValue_writeInt (fuel : Nat) (i : Int) {rest : List Char} (hrest : Ends rest) :
    readValue (fuel + 1) (writeInt i ++ rest) = some (.int i, rest) := by
  unfold writeInt
  by_cases hneg : i < 0
  · have hminus : skipBlanks ('-' :: (Nat.toDigits 10 i.natAbs ++ rest)) =
        '-' :: (Nat.toDigits 10 i.natAbs ++ rest) := rfl
    have hi : -(i.natAbs : Int) = i := by omega
    simp only [hneg, if_true, List.cons_append, readValue, hminus]
    rw [readNat_toDigits _ hrest]
    simp only [Option.map_some, hi]
  · have hi : (i.natAbs : Int) = i := by omega
    simp only [hneg, if_false]
    rcases hdigits : Nat.toDigits 10 i.natAbs with _ | ⟨c, cs⟩
    · exact absurd hdigits Nat.toDigits_ne_nil
    · have hc : c.isDigit = true :=
        isDigit_of_mem_toDigits (n := i.natAbs) (by rw [hdigits]; exact List.mem_cons_self ..)
      rw [List.cons_append, readValue_digits _ hc, ← List.cons_append, ← hdigits,
        readNat_toDigits _ hrest]
      simp only [Option.map_some, hi]

theorem readValue_writeString {fuel : Nat} (s : String) (rest : List Char)
    (h : (writeString s).length ≤ fuel + 1) :
    readValue (fuel + 1) (writeString s ++ rest) = some (.str s, rest) := by
  have hlength : (s.toList.flatMap writeChar).length < fuel := by
    simp only [writeString, List.length_cons, List.length_append, List.length_nil] at h
    omega
  have hread := readString_write s.toList rest hlength
  have hopen : readValue (fuel + 1) (writeString s ++ rest) =
      (readString fuel (s.toList.flatMap writeChar ++ quote :: rest)).map
        (fun p => (.str (String.ofList p.1), p.2)) := by
    simp only [writeString, List.cons_append, List.append_assoc, List.nil_append]
    rfl
  rw [hopen, hread]
  simp

/-- The first letter of a value is no blank and closes no list. -/
theorem write_head (j : Json) :
    ∃ c l, write j = c :: l ∧ isBlank c = false ∧ c ≠ ']' := by
  cases j with
  | null =>
    simp only [write]
    exact ⟨_, _, rfl, rfl, by decide⟩
  | bool b =>
    cases b <;> simp only [write] <;> exact ⟨_, _, rfl, rfl, by decide⟩
  | int i =>
    have hdigit : ∀ c : Char, c.isDigit = true → isBlank c = false ∧ c ≠ ']' := by
      refine fun c h => ⟨isBlank_of_isDigit h, ?_⟩
      rintro rfl
      cases h
    simp only [write, writeInt]
    split
    · exact ⟨_, _, rfl, rfl, by decide⟩
    · rcases hdigits : Nat.toDigits 10 i.natAbs with _ | ⟨c, cs⟩
      · exact absurd hdigits Nat.toDigits_ne_nil
      · have hc : c.isDigit = true :=
          isDigit_of_mem_toDigits (n := i.natAbs) (by rw [hdigits]; exact List.mem_cons_self ..)
        exact ⟨c, cs, rfl, hdigit c hc⟩
  | str s =>
    simp only [write, writeString]
    exact ⟨_, _, rfl, rfl, by decide⟩
  | arr items =>
    simp only [write]
    exact ⟨_, _, rfl, rfl, by decide⟩
  | obj members =>
    simp only [write]
    exact ⟨_, _, rfl, rfl, by decide⟩

theorem write_ne_nil (j : Json) : 0 < (write j).length := by
  obtain ⟨c, l, h, -⟩ := write_head j
  simp [h]

theorem writeItems_head (item : Json) (items : List Json) :
    ∃ c l, writeItems (item :: items) = c :: l ∧ isBlank c = false ∧ c ≠ ']' := by
  obtain ⟨c, l, h, hc⟩ := write_head item
  cases items with
  | nil =>
    simp only [writeItems]
    exact ⟨c, l, h, hc⟩
  | cons next items =>
    simp only [writeItems, h, List.cons_append]
    exact ⟨c, _, rfl, hc⟩

theorem writeMembers_head (key : String) (value : Json) (members : List (String × Json)) :
    ∃ l, writeMembers ((key, value) :: members) = quote :: l := by
  cases members with
  | nil =>
    simp only [writeMembers, writeString, List.cons_append]
    exact ⟨_, rfl⟩
  | cons next members =>
    simp only [writeMembers, writeString, List.cons_append]
    exact ⟨_, rfl⟩

/-- After its opening bracket, a list with items is read item by item. -/
theorem readValue_items {fuel : Nat} {item : Json} {items : List Json} {rest : List Char} :
    readValue (fuel + 1) ('[' :: (writeItems (item :: items) ++ rest)) =
      (readItems fuel (writeItems (item :: items) ++ rest)).map (fun p => (.arr p.1, p.2)) := by
  obtain ⟨c, l, h, hblank, hclose⟩ := writeItems_head item items
  have hskip : skipBlanks (c :: (l ++ rest)) = c :: (l ++ rest) := skipBlanks_cons hblank _
  have hopen : skipBlanks ('[' :: (c :: (l ++ rest))) = '[' :: (c :: (l ++ rest)) := rfl
  rw [h, List.cons_append]
  simp only [readValue, hopen, hskip]
  split
  · rename_i heq
    cases heq
    exact absurd rfl hclose
  · rfl

theorem readValue_members {fuel : Nat} {key : String} {value : Json}
    {members : List (String × Json)} {rest : List Char} :
    readValue (fuel + 1) ('\x7b' :: (writeMembers ((key, value) :: members) ++ rest)) =
      (readMembers fuel (writeMembers ((key, value) :: members) ++ rest)).map
        (fun p => (.obj (distinctMembers p.1), p.2)) := by
  obtain ⟨l, h⟩ := writeMembers_head key value members
  rw [h]
  rfl

/-- A member of an object, up to what follows its value. -/
theorem readMembers_member {fuel : Nat} (key : String) {value : Json} {tail : List Char}
    (hkey : (writeString key).length ≤ fuel)
    (hvalue : readValue fuel (write value ++ tail) = some (value, tail)) :
    readMembers (fuel + 1) (writeString key ++ ':' :: ' ' :: (write value ++ tail)) =
      match skipBlanks tail with
      | ',' :: rest => (readMembers fuel rest).map (fun p => ((key, value) :: p.1, p.2))
      | '\x7d' :: rest => some ([(key, value)], rest)
      | _ => none := by
  have hlength : (key.toList.flatMap writeChar).length < fuel := by
    simp only [writeString, List.length_cons, List.length_append, List.length_nil] at hkey
    omega
  have hread := readString_write key.toList (':' :: ' ' :: (write value ++ tail)) hlength
  have hskip : skipBlanks (quote :: (key.toList.flatMap writeChar ++
      quote :: ':' :: ' ' :: (write value ++ tail))) =
      quote :: (key.toList.flatMap writeChar ++ quote :: ':' :: ' ' :: (write value ++ tail)) := rfl
  have hcolon : skipBlanks (':' :: ' ' :: (write value ++ tail)) =
      ':' :: ' ' :: (write value ++ tail) := rfl
  simp only [writeString, List.cons_append, List.append_assoc, List.nil_append, readMembers, hskip,
    ne_eq, not_true_eq_false, if_false, hread, hcolon, readValue_blank, hvalue,
    String.ofList_toList]

mutual

theorem readValue_write (j : Json) (hj : j.Distinct) {fuel : Nat} {rest : List Char}
    (hrest : Ends rest) (hfuel : (write j).length ≤ fuel) :
    readValue fuel (write j ++ rest) = some (j, rest) := by
  have hpos := write_ne_nil j
  obtain ⟨n, rfl⟩ : ∃ n, fuel = n + 1 := ⟨fuel - 1, by omega⟩
  match j with
  | .null => simp only [write]; rfl
  | .bool true => simp only [write]; rfl
  | .bool false => simp only [write]; rfl
  | .int i =>
    simp only [write]
    exact readValue_writeInt n i hrest
  | .str s =>
    simp only [write] at hfuel ⊢
    exact readValue_writeString s rest hfuel
  | .arr [] => simp only [write, writeItems]; rfl
  | .arr (item :: items) =>
    simp only [write, List.length_cons, List.length_append, List.length_nil] at hfuel
    have hitems := readItems_write (item :: items) (List.cons_ne_nil _ _) hj rest
      (show _ < n by omega)
    simp only [write, List.cons_append, List.append_assoc, List.nil_append]
    rw [readValue_items, hitems]
    rfl
  | .obj [] => simp only [write, writeMembers]; rfl
  | .obj ((key, value) :: members) =>
    simp only [write, List.length_cons, List.length_append, List.length_nil] at hfuel
    obtain ⟨hnodup, hvalues⟩ := hj
    have hmembers := readMembers_write ((key, value) :: members) (List.cons_ne_nil _ _) hvalues rest
      (show _ < n by omega)
    simp only [write, List.cons_append, List.append_assoc, List.nil_append]
    rw [readValue_members, hmembers, Option.map_some, distinctMembers_of_nodup hnodup]

theorem readItems_write (items : List Json) (hne : items ≠ []) (h : DistinctItems items)
    {fuel : Nat} (rest : List Char) (hfuel : (writeItems items).length < fuel) :
    readItems fuel (writeItems items ++ ']' :: rest) = some (items, rest) := by
  obtain ⟨n, rfl⟩ : ∃ n, fuel = n + 1 := ⟨fuel - 1, by omega⟩
  match items with
  | [] => exact absurd rfl hne
  | [item] =>
    simp only [writeItems] at hfuel ⊢
    have hitem := readValue_write item h.1 (ends_cons rest (Or.inr (Or.inl rfl)))
      (show _ ≤ n by omega)
    simp only [readItems, hitem]
    rfl
  | item :: next :: items =>
    simp only [writeItems, List.length_append, List.length_cons] at hfuel
    have hitem := readValue_write item h.1
      (ends_cons (' ' :: (writeItems (next :: items) ++ ']' :: rest)) (Or.inl rfl))
      (show _ ≤ n by omega)
    have hitems := readItems_write (next :: items) (List.cons_ne_nil _ _) h.2 rest
      (show _ < n by omega)
    simp only [writeItems, List.append_assoc, List.cons_append, readItems, hitem]
    have hcomma : skipBlanks (',' :: ' ' :: (writeItems (next :: items) ++ ']' :: rest)) =
        ',' :: ' ' :: (writeItems (next :: items) ++ ']' :: rest) := rfl
    have hblank : readItems n (' ' :: (writeItems (next :: items) ++ ']' :: rest)) =
        readItems n (writeItems (next :: items) ++ ']' :: rest) := by
      obtain ⟨m, rfl⟩ : ∃ m, n = m + 1 := ⟨n - 1, by omega⟩
      simp only [readItems, readValue_blank]
    simp only [hcomma, hblank, hitems, Option.map_some]

theorem readMembers_write (members : List (String × Json)) (hne : members ≠ [])
    (h : DistinctMembers members) {fuel : Nat} (rest : List Char)
    (hfuel : (writeMembers members).length < fuel) :
    readMembers fuel (writeMembers members ++ '\x7d' :: rest) = some (members, rest) := by
  obtain ⟨n, rfl⟩ : ∃ n, fuel = n + 1 := ⟨fuel - 1, by omega⟩
  match members with
  | [] => exact absurd rfl hne
  | [(key, value)] =>
    simp only [writeMembers, List.length_append, List.length_cons] at hfuel
    have hvalue := readValue_write value h.1 (ends_cons rest (Or.inr (Or.inr rfl)))
      (show _ ≤ n by omega)
    have hmember := readMembers_member key (show _ ≤ n by omega) hvalue
    simp only [writeMembers, List.append_assoc, List.cons_append]
    rw [hmember]
    rfl
  | (key, value) :: (key', value') :: members =>
    simp only [writeMembers, List.length_append, List.length_cons] at hfuel
    have hvalue := readValue_write value h.1
      (ends_cons (' ' :: (writeMembers ((key', value') :: members) ++ '\x7d' :: rest)) (Or.inl rfl))
      (show _ ≤ n by omega)
    have hmember := readMembers_member key (show _ ≤ n by omega) hvalue
    have hmembers := readMembers_write ((key', value') :: members) (List.cons_ne_nil _ _) h.2 rest
      (show _ < n by omega)
    have hcomma : skipBlanks (',' :: ' ' :: (writeMembers ((key', value') :: members) ++
        '\x7d' :: rest)) =
        ',' :: ' ' :: (writeMembers ((key', value') :: members) ++ '\x7d' :: rest) := rfl
    simp only [writeMembers, List.append_assoc, List.cons_append]
    rw [hmember]
    simp only [hcomma, readMembers_blank, hmembers, Option.map_some]

end

/-- A text that was written is read back. -/
theorem loads_dumps {j : Json} (h : j.Distinct) : loads (dumps j) = some j := by
  have hread := readValue_write j h ends_nil (Nat.le_refl _)
  rw [List.append_nil] at hread
  unfold loads dumps
  rw [String.toList_ofList, hread]
  rfl

/-! ## What is read has no key twice -/

theorem distinct_of_members {members : List (String × Json)} :
    DistinctMembers members ↔ ∀ e ∈ members, e.2.Distinct := by
  induction members with
  | nil => simp [DistinctMembers]
  | cons e members ih =>
    obtain ⟨key, value⟩ := e
    simp [DistinctMembers, ih]

theorem mem_setEntries {key : String} {value : Json} {es : List (String × Json)}
    {e : String × Json} (h : e ∈ setEntries key value es) : e = (key, value) ∨ e ∈ es := by
  induction es with
  | nil => simpa [setEntries] using h
  | cons f es ih =>
    obtain ⟨j, w⟩ := f
    unfold setEntries at h
    split at h
    · rcases List.mem_cons.mp h with h | h
      · exact Or.inl h
      · exact Or.inr (List.mem_cons_of_mem _ h)
    · rcases List.mem_cons.mp h with h | h
      · exact Or.inr (h ▸ List.mem_cons_self ..)
      · exact (ih h).imp_right (List.mem_cons_of_mem _)

theorem foldl_setEntries_distinct (members acc : List (String × Json))
    (hacc : (acc.map Prod.fst).Nodup) :
    ((members.foldl (fun es e => setEntries e.1 e.2 es) acc).map Prod.fst).Nodup ∧
      ∀ e ∈ members.foldl (fun es e => setEntries e.1 e.2 es) acc, e ∈ acc ∨ e ∈ members := by
  induction members generalizing acc with
  | nil => exact ⟨hacc, fun e he => Or.inl he⟩
  | cons f members ih =>
    have hset : ((setEntries f.1 f.2 acc).map Prod.fst).Nodup :=
      (Dict.set ⟨acc, hacc⟩ f.1 f.2).nodup
    obtain ⟨hnodup, hmem⟩ := ih (setEntries f.1 f.2 acc) hset
    refine ⟨hnodup, fun e he => ?_⟩
    rcases hmem e he with h | h
    · rcases mem_setEntries h with rfl | h
      · exact Or.inr (List.mem_cons_self ..)
      · exact Or.inl h
    · exact Or.inr (List.mem_cons_of_mem _ h)

theorem distinct_obj {members : List (String × Json)} (h : DistinctMembers members) :
    (Json.obj (distinctMembers members)).Distinct := by
  obtain ⟨hnodup, hmem⟩ := foldl_setEntries_distinct members [] List.nodup_nil
  refine ⟨hnodup, distinct_of_members.mpr fun e he => ?_⟩
  rcases hmem e he with h' | h'
  · cases h'
  · exact distinct_of_members.mp h e h'

theorem read_distinct (fuel : Nat) :
    (∀ l j rest, readValue fuel l = some (j, rest) → j.Distinct) ∧
      (∀ l items rest, readItems fuel l = some (items, rest) → DistinctItems items) ∧
      ∀ l members rest, readMembers fuel l = some (members, rest) → DistinctMembers members := by
  induction fuel with
  | zero => simp [readValue, readItems, readMembers]
  | succ fuel ih =>
    obtain ⟨hvalue, hitems, hmembers⟩ := ih
    refine ⟨fun l j rest h => ?_, fun l items rest h => ?_, fun l members rest h => ?_⟩
    · unfold readValue at h
      split at h
      case h_4 =>
        split at h
        · cases h
          trivial
        · obtain ⟨p, hp, heq⟩ := Option.map_eq_some_iff.mp h
          cases heq
          exact hitems _ _ _ hp
      case h_5 =>
        split at h
        · cases h
          exact ⟨List.nodup_nil, trivial⟩
        · obtain ⟨p, hp, heq⟩ := Option.map_eq_some_iff.mp h
          cases heq
          exact distinct_obj (hmembers _ _ _ hp)
      case h_6 =>
        obtain ⟨p, -, heq⟩ := Option.map_eq_some_iff.mp h
        cases heq
        trivial
      case h_7 =>
        split at h <;>
          (obtain ⟨p, -, heq⟩ := Option.map_eq_some_iff.mp h; cases heq; trivial)
      all_goals
        cases h
        try trivial
    · unfold readItems at h
      split at h
      · cases h
      · rename_i item rest' hitem
        split at h
        · obtain ⟨p, hp, heq⟩ := Option.map_eq_some_iff.mp h
          cases heq
          exact ⟨hvalue _ _ _ hitem, hitems _ _ _ hp⟩
        · cases h
          exact ⟨hvalue _ _ _ hitem, trivial⟩
        · cases h
    · unfold readMembers at h
      split at h
      · cases h
      split at h
      · cases h
      split at h
      · cases h
      split at h
      · split at h
        · cases h
        · rename_i value rest' hread
          simp only at h
          split at h
          · obtain ⟨p, hp, heq⟩ := Option.map_eq_some_iff.mp h
            cases heq
            exact ⟨hvalue _ _ _ hread, hmembers _ _ _ hp⟩
          · cases h
            exact ⟨hvalue _ _ _ hread, trivial⟩
          · cases h
      · cases h

theorem loads_distinct {text : String} {j : Json} (h : loads text = some j) : j.Distinct := by
  unfold loads at h
  split at h
  · rename_i value rest hread
    split at h
    · cases h
      exact (read_distinct _).1 _ _ _ hread
    · cases h
  · cases h

end jsons
