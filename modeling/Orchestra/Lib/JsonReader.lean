-- JSON texts in any layout, as `json.loads` reads them: with blanks anywhere, all escapes, and
-- numbers with a fraction, which are held by their text. What is said of the reader: it does not
-- look past the end of an object, and a text that begins within a string of another is read with
-- inside and outside exchanged.
import Mathlib.Data.List.TakeWhile
import Orchestra.Lib.Json

open dicts jsons

namespace json_reader

/-! ## The reader -/

inductive Doc
  | null
  | bool (b : Bool)
  | int (i : Int)
  | float (text : String)
  | str (s : String)
  | list (items : List Doc)
  | dict (members : List (String × Doc))

mutual

def Doc.decEq : (a b : Doc) → Decidable (a = b)
  | .null, .null => isTrue rfl
  | .bool a, .bool b => decidable_of_iff (a = b) (by simp)
  | .int a, .int b => decidable_of_iff (a = b) (by simp)
  | .float a, .float b => decidable_of_iff (a = b) (by simp)
  | .str a, .str b => decidable_of_iff (a = b) (by simp)
  | .list a, .list b => @decidable_of_iff _ (a = b) (by simp) (decEqItems a b)
  | .dict a, .dict b => @decidable_of_iff _ (a = b) (by simp) (decEqMembers a b)
  | .null, .bool _ | .null, .int _ | .null, .float _ | .null, .str _ | .null, .list _
  | .null, .dict _ => isFalse nofun
  | .bool _, .null | .bool _, .int _ | .bool _, .float _ | .bool _, .str _ | .bool _, .list _
  | .bool _, .dict _ => isFalse nofun
  | .int _, .null | .int _, .bool _ | .int _, .float _ | .int _, .str _ | .int _, .list _
  | .int _, .dict _ => isFalse nofun
  | .float _, .null | .float _, .bool _ | .float _, .int _ | .float _, .str _ | .float _, .list _
  | .float _, .dict _ => isFalse nofun
  | .str _, .null | .str _, .bool _ | .str _, .int _ | .str _, .float _ | .str _, .list _
  | .str _, .dict _ => isFalse nofun
  | .list _, .null | .list _, .bool _ | .list _, .int _ | .list _, .float _ | .list _, .str _
  | .list _, .dict _ => isFalse nofun
  | .dict _, .null | .dict _, .bool _ | .dict _, .int _ | .dict _, .float _ | .dict _, .str _
  | .dict _, .list _ => isFalse nofun

def decEqItems : (l m : List Doc) → Decidable (l = m)
  | [], [] => isTrue rfl
  | [], _ :: _ | _ :: _, [] => isFalse nofun
  | a :: l, b :: m =>
    @decidable_of_iff _ (a = b ∧ l = m) (by simp)
      (@instDecidableAnd _ _ (Doc.decEq a b) (decEqItems l m))

def decEqMembers : (l m : List (String × Doc)) → Decidable (l = m)
  | [], [] => isTrue rfl
  | [], _ :: _ | _ :: _, [] => isFalse nofun
  | (j, a) :: l, (k, b) :: m =>
    @decidable_of_iff _ (j = k ∧ a = b ∧ l = m) (by simp [and_assoc])
      (@instDecidableAnd _ _ _ (@instDecidableAnd _ _ (Doc.decEq a b) (decEqMembers l m)))

end

instance : DecidableEq Doc := Doc.decEq

/-- The letters of numbers and names. -/
def isWord (c : Char) : Bool := c.isAlphanum || c = '+' || c = '-' || c = '.'

/-- An exponent, or nothing. -/
def isExponent : List Char → Bool
  | [] => true
  | e :: l =>
    (e = 'e' || e = 'E') &&
      match l with
      | '+' :: l | '-' :: l => !l.isEmpty && l.all Char.isDigit
      | l => !l.isEmpty && l.all Char.isDigit

/-- What may follow the whole part of a float. -/
def isFraction : List Char → Bool
  | '.' :: l => !(l.takeWhile Char.isDigit).isEmpty && isExponent (l.dropWhile Char.isDigit)
  | l => isExponent l

/-- A number without its sign, which is kept in `text`. -/
def unsigned (sign : Int) (text l : List Char) : Option Doc :=
  let digits := l.takeWhile Char.isDigit
  let rest := l.dropWhile Char.isDigit
  if digits = [] ∨ digits.head? = some '0' ∧ digits.length ≠ 1 then none
  else if rest = [] then some (.int (sign * Nat.ofDigitChars 10 digits 0))
  else if isFraction rest then some (.float (String.ofList text))
  else none

/-- The value of a name or number. -/
def wordValue (word : List Char) : Option Doc :=
  if word = "null".toList then some .null
  else if word = "true".toList then some (.bool true)
  else if word = "false".toList then some (.bool false)
  else if word = "NaN".toList ∨ word = "Infinity".toList ∨ word = "-Infinity".toList then
    some (.float (String.ofList word))
  else
    match word with
    | '-' :: l => unsigned (-1) word l
    | l => unsigned 1 word l

def readWord (l : List Char) : Option (Doc × List Char) :=
  (wordValue (l.takeWhile isWord)).map fun v => (v, l.dropWhile isWord)

/-- A dictionary from its members: a later one wins and keeps the old place. -/
def distinct (members : List (String × Doc)) : List (String × Doc) :=
  members.foldl (fun es e => setEntries e.1 e.2 es) []

mutual

def readValue : Nat → List Char → Option (Doc × List Char)
  | 0, _ => none
  | fuel + 1, l =>
    match skipBlanks l with
    | [] => none
    | c :: rest =>
      if c = quote then (readString fuel rest).map (fun p => (.str (String.ofList p.1), p.2))
      else if c = '[' then
        match skipBlanks rest with
        | ']' :: rest => some (.list [], rest)
        | rest => (readItems fuel rest).map (fun p => (.list p.1, p.2))
      else if c = '\x7b' then
        match skipBlanks rest with
        | '\x7d' :: rest => some (.dict [], rest)
        | rest => (readMembers fuel rest).map (fun p => (.dict (distinct p.1), p.2))
      else readWord (c :: rest)

def readItems : Nat → List Char → Option (List Doc × List Char)
  | 0, _ => none
  | fuel + 1, l =>
    match readValue fuel l with
    | none => none
    | some (item, rest) =>
      match skipBlanks rest with
      | ',' :: rest => (readItems fuel rest).map (fun p => (item :: p.1, p.2))
      | ']' :: rest => some ([item], rest)
      | _ => none

def readMembers : Nat → List Char → Option (List (String × Doc) × List Char)
  | 0, _ => none
  | fuel + 1, l =>
    match skipBlanks l with
    | [] => none
    | c :: rest =>
      if c ≠ quote then none
      else
        match readString fuel rest with
        | none => none
        | some (key, rest) =>
          match skipBlanks rest with
          | ':' :: rest =>
            match readValue fuel rest with
            | none => none
            | some (value, rest) =>
              let entry := (String.ofList key, value)
              match skipBlanks rest with
              | ',' :: rest => (readMembers fuel rest).map (fun p => (entry :: p.1, p.2))
              | '\x7d' :: rest => some ([entry], rest)
              | _ => none
          | _ => none

end

/-- `json.loads(text)` -/
def loads (text : List Char) : Option Doc :=
  match readValue text.length text with
  | some (value, rest) => if skipBlanks rest = [] then some value else none
  | none => none

/-! ## A member at a time -/


/-- What a step of the reader over a list does. -/
theorem readItems_succ {fuel : Nat} {l rest : List Char} {items : List Doc} :
    readItems (fuel + 1) l = some (items, rest) ↔ ∃ item mid c tail,
      readValue fuel l = some (item, mid) ∧ skipBlanks mid = c :: tail ∧
        ((c = ',' ∧ ∃ later, readItems fuel tail = some (later, rest) ∧ items = item :: later) ∨
          c = ']' ∧ tail = rest ∧ items = [item]) := by
  constructor
  · intro h
    unfold readItems at h
    split at h
    · cases h
    · rename_i item mid hitem
      split at h
      · rename_i tail hskip
        obtain ⟨p, hp, heq⟩ := Option.map_eq_some_iff.mp h
        cases heq
        exact ⟨item, mid, ',', tail, hitem, hskip, .inl ⟨rfl, p.1, hp, rfl⟩⟩
      · rename_i tail hskip
        cases h
        exact ⟨item, mid, ']', rest, hitem, hskip, .inr ⟨rfl, rfl, rfl⟩⟩
      · cases h
  · rintro ⟨item, mid, c, tail, hitem, hskip, hcases⟩
    unfold readItems
    rw [hitem]
    dsimp only
    rw [hskip]
    rcases hcases with ⟨rfl, later, hlater, rfl⟩ | ⟨rfl, rfl, rfl⟩
    · change (readItems fuel tail).map (fun p => (item :: p.1, p.2)) = _
      rw [hlater]
      rfl
    · rfl

/-- What a step of the reader over an object does. -/
theorem readMembers_succ {fuel : Nat} {l rest : List Char} {members : List (String × Doc)} :
    readMembers (fuel + 1) l = some (members, rest) ↔
    ∃ start key colon after value mid c tail, skipBlanks l = quote :: start ∧
      readString fuel start = some (key, colon) ∧ skipBlanks colon = ':' :: after ∧
      readValue fuel after = some (value, mid) ∧ skipBlanks mid = c :: tail ∧
        ((c = ',' ∧ ∃ later, readMembers fuel tail = some (later, rest) ∧
            members = (String.ofList key, value) :: later) ∨
          c = '\x7d' ∧ tail = rest ∧ members = [(String.ofList key, value)]) := by
  constructor
  · intro h
    unfold readMembers at h
    split at h
    · cases h
    · rename_i c start hstart
      split at h
      · cases h
      · rename_i hquote
        obtain rfl := Classical.not_not.mp hquote
        split at h
        · cases h
        · rename_i key colon hkey
          split at h
          · rename_i after hcolon
            split at h
            · cases h
            · rename_i value mid hvalue
              dsimp only at h
              split at h
              · rename_i tail hskip
                obtain ⟨p, hp, heq⟩ := Option.map_eq_some_iff.mp h
                cases heq
                exact ⟨start, key, colon, after, value, mid, ',', tail, hstart, hkey, hcolon,
                  hvalue, hskip, .inl ⟨rfl, p.1, hp, rfl⟩⟩
              · rename_i tail hskip
                cases h
                exact ⟨start, key, colon, after, value, mid, '\x7d', rest, hstart, hkey, hcolon,
                  hvalue, hskip, .inr ⟨rfl, rfl, rfl⟩⟩
              · cases h
          · cases h
  · rintro ⟨start, key, colon, after, value, mid, c, tail, hstart, hkey, hcolon, hvalue, hskip,
      hcases⟩
    unfold readMembers
    rw [hstart]
    dsimp only
    rw [if_neg (fun h => h rfl), hkey]
    dsimp only
    rw [hcolon]
    change (match readValue fuel after with | none => none | some (value, rest) => _) = _
    rw [hvalue]
    dsimp only
    rw [hskip]
    rcases hcases with ⟨rfl, later, hlater, rfl⟩ | ⟨rfl, rfl, rfl⟩
    · change (readMembers fuel tail).map (fun p => ((String.ofList key, value) :: p.1, p.2)) = _
      rw [hlater]
      rfl
    · rfl

/-- What the reader does with a value, by its first letter. -/
inductive Reads (fuel : Nat) (rest : List Char) : List Char → Doc → Prop
  | str {tail letters : List Char} (h : readString fuel tail = some (letters, rest)) :
    Reads fuel rest (quote :: tail) (.str (String.ofList letters))
  | noItems {tail : List Char} (h : skipBlanks tail = ']' :: rest) :
    Reads fuel rest ('[' :: tail) (.list [])
  | items {tail : List Char} {items : List Doc} (hopen : (skipBlanks tail).head? ≠ some ']')
    (h : readItems fuel (skipBlanks tail) = some (items, rest)) :
    Reads fuel rest ('[' :: tail) (.list items)
  | noMembers {tail : List Char} (h : skipBlanks tail = '\x7d' :: rest) :
    Reads fuel rest ('\x7b' :: tail) (.dict [])
  | members {tail : List Char} {members : List (String × Doc)}
    (hopen : (skipBlanks tail).head? ≠ some '\x7d')
    (h : readMembers fuel (skipBlanks tail) = some (members, rest)) :
    Reads fuel rest ('\x7b' :: tail) (.dict (distinct members))
  | word {word : List Char} {value : Doc} (hword : ∀ c ∈ word, isWord c = true)
    (hvalue : wordValue word = some value)
    (hrest : ∀ c, rest.head? = some c → isWord c = false) : Reads fuel rest (word ++ rest) value

theorem reads_of_readValue {fuel : Nat} {l rest : List Char} {value : Doc}
    (h : readValue (fuel + 1) l = some (value, rest)) : Reads fuel rest (skipBlanks l) value := by
  unfold readValue at h
  split at h
  · cases h
  · rename_i c tail hskip
    rw [hskip]
    split at h
    · rename_i hc
      obtain ⟨p, hp, heq⟩ := Option.map_eq_some_iff.mp h
      cases heq
      rw [hc]
      exact .str hp
    · split at h
      · rename_i hc
        rw [hc]
        split at h
        · rename_i hclose
          cases h
          exact .noItems hclose
        · rename_i hopen
          obtain ⟨p, hp, heq⟩ := Option.map_eq_some_iff.mp h
          cases heq
          refine .items (fun hhead => ?_) hp
          obtain ⟨t, ht⟩ := List.head?_eq_some_iff.mp hhead
          exact hopen t ht
      · split at h
        · rename_i hc
          rw [hc]
          split at h
          · rename_i hclose
            cases h
            exact .noMembers hclose
          · rename_i hopen
            obtain ⟨p, hp, heq⟩ := Option.map_eq_some_iff.mp h
            cases heq
            refine .members (fun hhead => ?_) hp
            obtain ⟨t, ht⟩ := List.head?_eq_some_iff.mp hhead
            exact hopen t ht
        · obtain ⟨v, hv, heq⟩ := Option.map_eq_some_iff.mp h
          cases heq
          have hstop := List.head?_dropWhile_not isWord (c :: tail)
          have hword : Reads fuel ((c :: tail).dropWhile isWord)
              ((c :: tail).takeWhile isWord ++ (c :: tail).dropWhile isWord) value := by
            refine .word (fun c hc => List.mem_takeWhile_imp hc) hv fun d hd => ?_
            rw [hd] at hstop
            exact hstop
          rwa [List.takeWhile_append_dropWhile] at hword

theorem wordValue_nil : wordValue [] = none := rfl

theorem readValue_of_reads {fuel : Nat} {l rest : List Char} {value : Doc}
    (h : Reads fuel rest (skipBlanks l) value) : readValue (fuel + 1) l = some (value, rest) := by
  generalize hskip : skipBlanks l = text at h
  unfold readValue
  rw [hskip]
  cases h with
  | str h =>
    dsimp only
    rw [if_pos rfl, h]
    rfl
  | noItems h =>
    dsimp only
    rw [if_neg (by decide), if_pos rfl, h]
    rfl
  | items hopen h =>
    dsimp only
    rw [if_neg (by decide), if_pos rfl]
    split
    · rename_i hclose
      rw [hclose] at hopen
      exact absurd rfl hopen
    · rw [h]
      rfl
  | noMembers h =>
    dsimp only
    rw [if_neg (by decide), if_neg (by decide), if_pos rfl, h]
    rfl
  | members hopen h =>
    dsimp only
    rw [if_neg (by decide), if_neg (by decide), if_pos rfl]
    split
    · rename_i hclose
      rw [hclose] at hopen
      exact absurd rfl hopen
    · rw [h]
      rfl
  | @word word _ hword hvalue hrest =>
    cases word with
    | nil =>
      rw [wordValue_nil] at hvalue
      cases hvalue
    | cons c word =>
      have hc := hword c List.mem_cons_self
      have hne : c ≠ quote ∧ c ≠ '[' ∧ c ≠ '\x7b' := by
        refine ⟨?_, ?_, ?_⟩ <;> (rintro rfl; cases hc)
      have hstop : rest.takeWhile isWord = [] ∧ rest.dropWhile isWord = rest := by
        cases rest with
        | nil => exact ⟨rfl, rfl⟩
        | cons d rest => simp [hrest d rfl]
      have htake : (c :: word ++ rest).takeWhile isWord = c :: word := by
        rw [List.takeWhile_append_of_pos hword, hstop.1, List.append_nil]
      have hdrop : (c :: word ++ rest).dropWhile isWord = rest := by
        rw [List.dropWhile_append_of_pos hword, hstop.2]
      rw [List.cons_append] at htake hdrop ⊢
      dsimp only
      rw [if_neg hne.1, if_neg hne.2.1, if_neg hne.2.2, readWord, htake, hdrop, hvalue]
      rfl

/-! ## More text after a value -/

theorem skipBlanks_append {l : List Char} (h : skipBlanks l ≠ []) (m : List Char) :
    skipBlanks (l ++ m) = skipBlanks l ++ m := by
  induction l with
  | nil => exact absurd rfl h
  | cons c l ih =>
    unfold skipBlanks at *
    by_cases hc : isBlank c = true
    · rw [List.dropWhile_cons_of_pos hc] at h ⊢
      rw [List.cons_append, List.dropWhile_cons_of_pos hc]
      exact ih h
    · rw [List.dropWhile_cons_of_neg hc, List.cons_append, List.dropWhile_cons_of_neg hc]

theorem readUnit_append {l rest : List Char} {n : Nat} (h : readUnit l = some (n, rest))
    (m : List Char) : readUnit (l ++ m) = some (n, rest ++ m) := by
  match l with
  | a :: b :: c :: d :: tail =>
    simp only [readUnit, List.cons_append] at h ⊢
    simp only [Option.bind_eq_bind, Option.bind_eq_some_iff] at h ⊢
    obtain ⟨a', ha, b', hb, c', hc, d', hd, heq⟩ := h
    cases heq
    exact ⟨a', ha, b', hb, c', hc, d', hd, rfl⟩

theorem readEscaped_append {l rest : List Char} {c : Char} (h : readEscaped l = some (c, rest))
    (m : List Char) : readEscaped (l ++ m) = some (c, rest ++ m) := by
  unfold readEscaped at h ⊢
  cases hunit : readUnit l with
  | none =>
    rw [hunit] at h
    cases h
  | some p =>
    obtain ⟨n, tail⟩ := p
    rw [hunit] at h
    rw [readUnit_append hunit]
    dsimp only at h ⊢
    split at h
    · rename_i hhigh
      rw [if_pos hhigh]
      split at h
      · rename_i a b tail'
        dsimp only [List.cons_append]
        split at h
        · rename_i hab
          rw [if_pos hab]
          split at h
          · rename_i k tail'' hsecond
            rw [readUnit_append hsecond]
            dsimp only
            split at h
            · rename_i hlow
              rw [if_pos hlow]
              obtain ⟨hc, hrest⟩ := Prod.mk.inj (Option.some.inj h)
              rw [hc, hrest]
            · cases h
          · cases h
        · cases h
      · cases h
    · rename_i hhigh
      rw [if_neg hhigh]
      split at h
      · cases h
      · rename_i hlow
        rw [if_neg hlow]
        cases h
        rfl

theorem readChar_append {l rest : List Char} {c : Option Char} (h : readChar l = some (c, rest))
    (m : List Char) : readChar (l ++ m) = some (c, rest ++ m) := by
  cases l with
  | nil => cases h
  | cons d l =>
    unfold readChar at h ⊢
    dsimp only [List.cons_append] at h ⊢
    split at h
    · rename_i hquote
      rw [if_pos hquote]
      cases h
      rfl
    · rename_i hquote
      rw [if_neg hquote]
      split at h
      · rename_i hback
        rw [if_pos hback]
        cases l with
        | nil => cases h
        | cons letter l =>
          dsimp only [List.cons_append] at h ⊢
          split at h
          · rename_i hu
            rw [if_pos hu]
            obtain ⟨p, hp, heq⟩ := Option.map_eq_some_iff.mp h
            cases heq
            rw [readEscaped_append hp]
            rfl
          · rename_i hu
            rw [if_neg hu]
            obtain ⟨p, hp, heq⟩ := Option.map_eq_some_iff.mp h
            cases heq
            rw [hp]
            rfl
      · rename_i hback
        rw [if_neg hback]
        split at h
        · cases h
        · rename_i hcontrol
          rw [if_neg hcontrol]
          cases h
          rfl

theorem readString_append {fuel fuel' : Nat} (hfuel : fuel ≤ fuel') {l letters rest : List Char}
    (h : readString fuel l = some (letters, rest)) (m : List Char) :
    readString fuel' (l ++ m) = some (letters, rest ++ m) := by
  induction fuel generalizing fuel' l letters with
  | zero => cases h
  | succ fuel ih =>
    obtain ⟨n, rfl⟩ : ∃ n, fuel' = n + 1 := ⟨fuel' - 1, by omega⟩
    unfold readString at h ⊢
    split at h
    · cases h
    · rename_i tail hchar
      cases h
      rw [readChar_append hchar]
    · rename_i c tail hchar
      rw [readChar_append hchar]
      obtain ⟨p, hp, heq⟩ := Option.map_eq_some_iff.mp h
      cases heq
      dsimp only
      rw [ih (by omega) hp]
      rfl

theorem read_nil (fuel : Nat) : readValue fuel [] = none ∧ readItems fuel [] = none ∧
    readMembers fuel [] = none := by
  induction fuel with
  | zero => exact ⟨rfl, rfl, rfl⟩
  | succ fuel ih =>
    refine ⟨rfl, ?_, rfl⟩
    unfold readItems
    rw [ih.1]

/-- A value is read as before where more text follows, if something was left after it or if it is
an object. -/
theorem Reads.append {fuel n : Nat} {rest text : List Char} {value : Doc} (hfuel : fuel ≤ n)
    (hitems : ∀ l items rest m, readItems fuel l = some (items, rest) →
      readItems n (l ++ m) = some (items, rest ++ m))
    (hmembers : ∀ l members rest m, readMembers fuel l = some (members, rest) →
      readMembers n (l ++ m) = some (members, rest ++ m))
    (h : Reads fuel rest text value) (hrest : rest ≠ [] ∨ text.head? = some '\x7b')
    (m : List Char) : Reads n (rest ++ m) (text ++ m) value := by
  cases h with
  | str h => exact .str (readString_append hfuel h m)
  | @noItems tail h =>
    rw [List.cons_append]
    refine .noItems ?_
    rw [skipBlanks_append (by rw [h]; exact List.cons_ne_nil _ _), h]
    rfl
  | @items tail _ hopen h =>
    have hne : skipBlanks tail ≠ [] := by
      intro hnil
      rw [hnil, (read_nil fuel).2.1] at h
      cases h
    rw [List.cons_append]
    refine .items ?_ ?_
    · rw [skipBlanks_append hne, List.head?_append_of_ne_nil _ hne]
      exact hopen
    · rw [skipBlanks_append hne]
      exact hitems _ _ _ m h
  | @noMembers tail h =>
    rw [List.cons_append]
    refine .noMembers ?_
    rw [skipBlanks_append (by rw [h]; exact List.cons_ne_nil _ _), h]
    rfl
  | @members tail _ hopen h =>
    have hne : skipBlanks tail ≠ [] := by
      intro hnil
      rw [hnil, (read_nil fuel).2.2] at h
      cases h
    rw [List.cons_append]
    refine .members ?_ ?_
    · rw [skipBlanks_append hne, List.head?_append_of_ne_nil _ hne]
      exact hopen
    · rw [skipBlanks_append hne]
      exact hmembers _ _ _ m h
  | @word word _ hword hvalue hstop =>
    have hne : rest ≠ [] := by
      refine hrest.resolve_right fun hhead => ?_
      cases word with
      | nil =>
        rw [wordValue_nil] at hvalue
        cases hvalue
      | cons c word =>
        cases hhead
        cases hword '\x7b' List.mem_cons_self
    rw [List.append_assoc]
    refine .word hword hvalue ?_
    rwa [List.head?_append_of_ne_nil _ hne]

theorem Reads.ne_nil {fuel : Nat} {rest text : List Char} {value : Doc}
    (h : Reads fuel rest text value) : text ≠ [] := by
  cases h with
  | @word word _ hword hvalue hstop =>
    cases word with
    | nil =>
      rw [wordValue_nil] at hvalue
      cases hvalue
    | cons c word => exact List.cons_ne_nil _ _
  | str | noItems | items | noMembers | members => exact List.cons_ne_nil _ _

/-- Items and members end at their bracket, and so are read as before where more text follows. -/
theorem read_append (fuel : Nat) : ∀ n, fuel ≤ n →
    (∀ l value rest m, rest ≠ [] → readValue fuel l = some (value, rest) →
      readValue n (l ++ m) = some (value, rest ++ m)) ∧
    (∀ l items rest m, readItems fuel l = some (items, rest) →
      readItems n (l ++ m) = some (items, rest ++ m)) ∧
    ∀ l members rest m, readMembers fuel l = some (members, rest) →
      readMembers n (l ++ m) = some (members, rest ++ m) := by
  induction fuel with
  | zero => exact fun n _ => ⟨nofun, nofun, nofun⟩
  | succ fuel ih =>
    intro n hfuel
    obtain ⟨n, rfl⟩ : ∃ k, n = k + 1 := ⟨n - 1, by omega⟩
    obtain ⟨hvalue, hitems, hmembers⟩ := ih n (by omega)
    refine ⟨fun l value rest m hrest h => ?_, fun l items rest m h => ?_,
      fun l members rest m h => ?_⟩
    · have hreads := reads_of_readValue h
      apply readValue_of_reads
      rw [skipBlanks_append hreads.ne_nil]
      exact hreads.append (by omega) hitems hmembers (.inl hrest) m
    · obtain ⟨item, mid, c, tail, hitem, hskip, hcases⟩ := readItems_succ.mp h
      have hmid : mid ≠ [] := by
        rintro rfl
        cases hskip
      have hnext := skipBlanks_append (by rw [hskip]; exact List.cons_ne_nil _ _) m
      rw [hskip] at hnext
      refine readItems_succ.mpr ⟨item, _, c, _, hvalue _ _ _ m hmid hitem, hnext, ?_⟩
      rcases hcases with ⟨rfl, later, hlater, rfl⟩ | ⟨rfl, rfl, rfl⟩
      · exact .inl ⟨rfl, later, hitems _ _ _ m hlater, rfl⟩
      · exact .inr ⟨rfl, rfl, rfl⟩
    · obtain ⟨start, key, colon, after, value, mid, c, tail, hstart, hkey, hcolon, hread, hskip,
        hcases⟩ := readMembers_succ.mp h
      have hmid : mid ≠ [] := by
        rintro rfl
        cases hskip
      have hfirst := skipBlanks_append (by rw [hstart]; exact List.cons_ne_nil _ _) m
      have hsecond := skipBlanks_append (by rw [hcolon]; exact List.cons_ne_nil _ _) m
      have hnext := skipBlanks_append (by rw [hskip]; exact List.cons_ne_nil _ _) m
      rw [hstart] at hfirst
      rw [hcolon] at hsecond
      rw [hskip] at hnext
      refine readMembers_succ.mpr ⟨_, key, _, _, value, _, c, _, hfirst,
        readString_append (by omega) hkey m, hsecond, hvalue _ _ _ m hmid hread, hnext, ?_⟩
      rcases hcases with ⟨rfl, later, hlater, rfl⟩ | ⟨rfl, rfl, rfl⟩
      · exact .inl ⟨rfl, later, hmembers _ _ _ m hlater, rfl⟩
      · exact .inr ⟨rfl, rfl, rfl⟩

theorem loads_eq_some_iff {l : List Char} {value : Doc} : loads l = some value ↔
    ∃ rest, readValue l.length l = some (value, rest) ∧ skipBlanks rest = [] := by
  unfold loads
  cases hread : readValue l.length l with
  | none => simp
  | some p =>
    obtain ⟨v, rest⟩ := p
    by_cases hrest : skipBlanks rest = []
    · simp [hrest]
    · simp [hrest]

/-- No proper beginning of the text of an object is a text: only blanks can follow it. -/
theorem blank_of_loads_append {l m : List Char} {value v : Doc} (hopen : l.head? = some '\x7b')
    (hl : loads l = some v) (h : loads (l ++ m) = some value) : skipBlanks m = [] := by
  obtain ⟨rest, hread, hblank⟩ := loads_eq_some_iff.mp hl
  obtain ⟨rest', hread', hblank'⟩ := loads_eq_some_iff.mp h
  obtain ⟨tail, rfl⟩ := List.head?_eq_some_iff.mp hopen
  have hskip : skipBlanks ('\x7b' :: tail) = '\x7b' :: tail := rfl
  have hreads := reads_of_readValue hread
  obtain ⟨-, hitems, hmembers⟩ := read_append tail.length (tail ++ m).length
    (by rw [List.length_append]; omega)
  have hmore : readValue ('\x7b' :: tail ++ m).length ('\x7b' :: tail ++ m) =
      some (v, rest ++ m) := by
    refine readValue_of_reads ?_
    rw [skipBlanks_append hreads.ne_nil]
    exact hreads.append (by rw [List.length_append]; omega) hitems hmembers (.inr rfl) m
  rw [hmore] at hread'
  cases hread'
  unfold skipBlanks at hblank hblank' ⊢
  rw [List.dropWhile_eq_nil_iff] at hblank hblank' ⊢
  exact fun c hc => hblank' c (List.mem_append_right _ hc)

/-! ## Inside and outside of strings -/

inductive Mode
  | outside
  | inside
  | escaped
deriving DecidableEq, Repr

/-- The letters that stand outside of strings. -/
def isOuter (c : Char) : Bool :=
  isWord c || isBlank c || c = '[' || c = ']' || c = '\x7b' || c = '\x7d' || c = ',' || c = ':'

/-- A letter of a text. No backtick is escaped. -/
def next : Mode → Char → Option Mode
  | .outside, c => if c = quote then some .inside else if isOuter c then some .outside else none
  | .inside, c =>
    if c = quote then some .outside else if c = backslash then some .escaped else some .inside
  | .escaped, c => if c = '\x60' then none else some .inside

def scan (mode : Mode) (l : List Char) : Option Mode := l.foldlM next mode

@[simp] theorem scan_nil (mode : Mode) : scan mode [] = some mode := rfl

theorem scan_cons (mode : Mode) (c : Char) (l : List Char) :
    scan mode (c :: l) = (next mode c).bind (scan · l) := rfl

theorem scan_append (mode : Mode) (x y : List Char) :
    scan mode (x ++ y) = (scan mode x).bind (scan · y) := List.foldlM_append

theorem isOuter_plain {c : Char} (h : isOuter c = true) : c ≠ quote ∧ c ≠ backslash := by
  constructor <;> (rintro rfl; cases h)

theorem scan_outside {x : List Char} (h : ∀ c ∈ x, isOuter c = true) :
    scan .outside x = some .outside := by
  induction x with
  | nil => rfl
  | cons c x ih =>
    obtain ⟨hc, hx⟩ := List.forall_mem_cons.mp h
    rw [scan_cons, next, if_neg (isOuter_plain hc).1, if_pos hc]
    exact ih hx

theorem scan_inside {x : List Char} (h : ∀ c ∈ x, c ≠ quote ∧ c ≠ backslash) :
    scan .inside x = some .inside := by
  induction x with
  | nil => rfl
  | cons c x ih =>
    obtain ⟨hc, hx⟩ := List.forall_mem_cons.mp h
    rw [scan_cons, next, if_neg hc.1, if_neg hc.2]
    exact ih hx

theorem isOuter_of_isBlank {c : Char} (h : isBlank c = true) : isOuter c = true := by
  simp [isOuter, h]

theorem isOuter_of_isWord {c : Char} (h : isWord c = true) : isOuter c = true := by
  simp [isOuter, h]

/-! ## What is read of a string -/

theorem hexValue_plain {c : Char} {n : Nat} (h : hexValue c = some n) :
    c ≠ quote ∧ c ≠ backslash := by
  constructor <;> (rintro rfl; cases h)

theorem readUnit_eq {l rest : List Char} {n : Nat} (h : readUnit l = some (n, rest)) :
    ∃ x, l = x ++ rest ∧ ∀ c ∈ x, c ≠ quote ∧ c ≠ backslash := by
  match l with
  | a :: b :: c :: d :: tail =>
    simp only [readUnit, Option.bind_eq_bind, Option.bind_eq_some_iff] at h
    obtain ⟨_, ha, _, hb, _, hc, _, hd, heq⟩ := h
    cases heq
    refine ⟨[a, b, c, d], rfl, ?_⟩
    simp only [List.forall_mem_cons]
    exact ⟨hexValue_plain ha, hexValue_plain hb, hexValue_plain hc, hexValue_plain hd,
      List.forall_mem_nil _⟩

theorem readEscaped_eq {l rest : List Char} {c : Char} (h : readEscaped l = some (c, rest)) :
    ∃ x, l = x ++ rest ∧ scan .inside x = some .inside := by
  unfold readEscaped at h
  split at h
  · cases h
  · rename_i n tail hunit
    obtain ⟨x, rfl, hx⟩ := readUnit_eq hunit
    split at h
    · split at h
      · rename_i a b tail'
        split at h
        · rename_i hab
          obtain ⟨rfl, rfl⟩ := hab
          split at h
          · rename_i k tail'' hsecond
            obtain ⟨y, rfl, hy⟩ := readUnit_eq hsecond
            split at h
            · obtain ⟨-, rfl⟩ := Prod.mk.inj (Option.some.inj h)
              refine ⟨x ++ backslash :: 'u' :: y, by simp, ?_⟩
              have hpair : scan .inside (backslash :: 'u' :: y) = scan .inside y := rfl
              rw [scan_append, scan_inside hx, Option.bind_some, hpair, scan_inside hy]
            · cases h
          · cases h
        · cases h
      · cases h
    · split at h
      · cases h
      · obtain ⟨-, rfl⟩ := Prod.mk.inj (Option.some.inj h)
        exact ⟨x, rfl, scan_inside hx⟩

theorem unescape_ne {letter c : Char} (h : unescape letter = some c) : letter ≠ '\x60' := by
  have hnone : unescape '\x60' = none := rfl
  rintro rfl
  rw [hnone] at h
  cases h

/-- A letter of a string, plain or escaped, or the end of it. -/
theorem readChar_eq {l rest : List Char} {c : Option Char} (h : readChar l = some (c, rest)) :
    (c = none ∧ l = quote :: rest) ∨
      ∃ d e x, c = some d ∧ l = e :: (x ++ rest) ∧ scan .inside (e :: x) = some .inside := by
  cases l with
  | nil => cases h
  | cons e l =>
    unfold readChar at h
    dsimp only at h
    split at h
    · rename_i hquote
      cases h
      exact .inl ⟨rfl, by rw [hquote]⟩
    · rename_i hquote
      refine .inr ?_
      split at h
      · rename_i hback
        rw [hback]
        cases l with
        | nil => cases h
        | cons letter l =>
          dsimp only at h
          split at h
          · rename_i hu
            obtain ⟨p, hp, heq⟩ := Option.map_eq_some_iff.mp h
            cases heq
            obtain ⟨x, rfl, hx⟩ := readEscaped_eq hp
            rw [hu]
            exact ⟨_, backslash, 'u' :: x, rfl, rfl, hx⟩
          · obtain ⟨p, hp, heq⟩ := Option.map_eq_some_iff.mp h
            cases heq
            have hletter : next .escaped letter = some .inside := if_neg (unescape_ne hp)
            refine ⟨_, backslash, [letter], rfl, rfl, ?_⟩
            change (next .escaped letter).bind (scan · []) = _
            rw [hletter]
            rfl
      · rename_i hback
        split at h
        · cases h
        · cases h
          exact ⟨e, e, [], rfl, rfl, scan_inside (by simpa using ⟨hquote, hback⟩)⟩

/-- A letter that stands outside of strings is plain. -/
theorem readChar_outer {e : Char} {l rest : List Char} {c : Option Char} (he : isOuter e = true)
    (h : readChar (e :: l) = some (c, rest)) : c = some e ∧ rest = l := by
  unfold readChar at h
  dsimp only at h
  rw [if_neg (isOuter_plain he).1, if_neg (isOuter_plain he).2] at h
  split at h
  · cases h
  · cases h
    exact ⟨rfl, rfl⟩

theorem isSome_scan_outside {e : Char} {x : List Char}
    (h : (scan .outside (e :: x)).isSome = true) (hquote : e ≠ quote) :
    isOuter e = true ∧ scan .outside (e :: x) = scan .outside x := by
  rw [scan_cons, next, if_neg hquote] at h ⊢
  by_cases houter : isOuter e = true
  · rw [if_pos houter]
    exact ⟨houter, rfl⟩
  · rw [if_neg houter] at h
    cases h

/-- A string goes up to its closing quote. One that is read with the inside of another string for
its outside holds only what stands outside of strings. -/
theorem readString_eq {fuel : Nat} {l letters rest : List Char}
    (h : readString fuel l = some (letters, rest)) :
    ∃ x, l = x ++ quote :: rest ∧ scan .inside x = some .inside ∧
      ((scan .outside x).isSome = true →
        scan .outside x = some .outside ∧ ∀ c ∈ letters, isOuter c = true) := by
  induction fuel generalizing l letters with
  | zero => cases h
  | succ fuel ih =>
    unfold readString at h
    split at h
    · cases h
    · rename_i tail hchar
      cases h
      rcases readChar_eq hchar with ⟨-, rfl⟩ | ⟨d, e, x, hd, -, -⟩
      · exact ⟨[], rfl, rfl, fun _ => ⟨rfl, nofun⟩⟩
      · cases hd
    · rename_i c tail hchar
      obtain ⟨p, hp, heq⟩ := Option.map_eq_some_iff.mp h
      cases heq
      obtain ⟨y, rfl, hy, hflipped⟩ := ih hp
      rcases readChar_eq hchar with ⟨hc, -⟩ | ⟨d, e, x, -, rfl, hx⟩
      · cases hc
      · refine ⟨e :: (x ++ y), by simp, ?_, fun hscan => ?_⟩
        · rw [← List.cons_append, scan_append, hx]
          exact hy
        · have hquote : e ≠ quote := by
            rintro rfl
            cases hchar
          obtain ⟨houter, hnext⟩ := isSome_scan_outside hscan hquote
          obtain ⟨hc, htail⟩ := readChar_outer houter hchar
          cases hc
          have hempty : x = [] := by
            have hlength := congrArg List.length htail
            simp only [List.length_append, List.length_cons] at hlength
            exact List.eq_nil_of_length_eq_zero (by omega)
          rw [hnext, hempty, List.nil_append] at hscan ⊢
          obtain ⟨hy', hletters⟩ := hflipped hscan
          exact ⟨hy', List.forall_mem_cons.mpr ⟨houter, hletters⟩⟩

/-! ## Values, inside out -/

/-- Strings are closed in `x`, read from outside of one and, where that can be, from within. -/
structure Balanced (x : List Char) : Prop where
  outside : scan .outside x = some .outside
  inside : (scan .inside x).isSome = true → scan .inside x = some .inside

theorem balanced_outer {x : List Char} (h : ∀ c ∈ x, isOuter c = true) : Balanced x :=
  ⟨scan_outside h, fun _ => scan_inside fun c hc => isOuter_plain (h c hc)⟩

theorem isSome_scan_append {mode : Mode} {x y : List Char}
    (h : (scan mode (x ++ y)).isSome = true) : (scan mode x).isSome = true := by
  rw [scan_append] at h
  cases hx : scan mode x with
  | none =>
    rw [hx] at h
    cases h
  | some _ => rfl

theorem Balanced.append {x y : List Char} (hx : Balanced x) (hy : Balanced y) :
    Balanced (x ++ y) := by
  constructor
  · rw [scan_append, hx.outside]
    exact hy.outside
  · intro h
    have hfirst := hx.inside (isSome_scan_append h)
    rw [scan_append, hfirst] at h ⊢
    exact hy.inside h

theorem Balanced.isSome_right {x y : List Char} (hx : Balanced x)
    (h : (scan .inside (x ++ y)).isSome = true) : (scan .inside y).isSome = true := by
  have hfirst := hx.inside (isSome_scan_append h)
  rw [scan_append, hfirst] at h
  exact h

theorem exists_blanks (l : List Char) :
    ∃ blanks, l = blanks ++ skipBlanks l ∧ ∀ c ∈ blanks, isOuter c = true := by
  refine ⟨l.takeWhile isBlank, (List.takeWhile_append_dropWhile).symm, fun c hc => ?_⟩
  exact isOuter_of_isBlank (List.mem_takeWhile_imp hc)

theorem exists_blanks_of_skipBlanks {l tail : List Char} {c : Char} (h : skipBlanks l = c :: tail)
    (hc : isOuter c = true) :
    ∃ x, l = x ++ tail ∧ ∀ c ∈ x, isOuter c = true := by
  obtain ⟨blanks, hl, hblanks⟩ := exists_blanks l
  rw [h] at hl
  refine ⟨blanks ++ [c], by rw [hl]; simp, fun d hd => ?_⟩
  rcases List.mem_append.mp hd with hd | hd
  · exact hblanks d hd
  · rw [List.mem_singleton.mp hd]
    exact hc

def PlainKeys (members : List (String × Doc)) : Prop :=
  ∀ m ∈ members, ∀ c ∈ m.1.toList, isOuter c = true

theorem mem_keys_foldl {k : String} (members acc : List (String × Doc))
    (h : k ∈ (members.foldl (fun es e => setEntries e.1 e.2 es) acc).map Prod.fst) :
    k ∈ acc.map Prod.fst ∨ k ∈ members.map Prod.fst := by
  induction members generalizing acc with
  | nil => exact .inl h
  | cons e members ih =>
    rw [List.map_cons]
    rcases ih _ h with h | h
    · rw [keys_setEntries] at h
      split at h
      · exact .inl h
      · rcases List.mem_append.mp h with h | h
        · exact .inl h
        · rw [List.mem_singleton.mp h]
          exact .inr List.mem_cons_self
    · exact .inr (List.mem_cons_of_mem _ h)

theorem plainKeys_distinct {members : List (String × Doc)} (h : PlainKeys members) :
    PlainKeys (distinct members) := by
  intro m hm
  rcases mem_keys_foldl members [] (List.mem_map_of_mem hm) with hk | hk
  · cases hk
  · obtain ⟨m', hm', heq⟩ := List.mem_map.mp hk
    rw [← heq]
    exact h m' hm'

theorem wordValue_ne_dict {word : List Char} {members : List (String × Doc)} :
    wordValue word ≠ some (.dict members) := by
  have hunsigned : ∀ sign text l, unsigned sign text l ≠ some (.dict members) := by
    intro sign text l
    unfold unsigned
    dsimp only
    split
    · exact nofun
    · split
      · exact nofun
      · split <;> exact nofun
  unfold wordValue
  iterate 4 (split; · exact nofun)
  split
  · exact hunsigned _ _ _
  · exact hunsigned _ _ _

/-- The text `x` of a value: an object ends with its brace, and has only plain keys where it was
read inside out. -/
structure Extent (x : List Char) (value : Doc) : Prop where
  balanced : Balanced x
  closed : ∀ members, value = .dict members → x.getLast? = some '\x7d'
  plain : ∀ members, value = .dict members → (scan .inside x).isSome = true → PlainKeys members

theorem balanced_string {fuel : Nat} {l letters rest : List Char}
    (h : readString fuel l = some (letters, rest)) :
    ∃ x, quote :: l = x ++ rest ∧ Balanced x ∧
      ((scan .inside x).isSome = true → ∀ c ∈ letters, isOuter c = true) := by
  obtain ⟨x, rfl, hx, hflipped⟩ := readString_eq h
  have hinside : scan .inside (quote :: (x ++ [quote])) = scan .outside (x ++ [quote]) := rfl
  refine ⟨quote :: (x ++ [quote]), by simp, ⟨?_, fun hscan => ?_⟩, fun hscan => ?_⟩
  · change scan .inside (x ++ [quote]) = _
    rw [scan_append, hx]
    rfl
  · rw [hinside] at hscan ⊢
    rw [scan_append, (hflipped (isSome_scan_append hscan)).1]
    rfl
  · rw [hinside] at hscan
    exact (hflipped (isSome_scan_append hscan)).2

theorem extent_of_ne_dict {x : List Char} {value : Doc} (hx : Balanced x)
    (hvalue : ∀ members, value ≠ .dict members) : Extent x value :=
  ⟨hx, fun members h => absurd h (hvalue members), fun members h => absurd h (hvalue members)⟩

theorem Reads.extent {fuel : Nat} {rest text : List Char} {value : Doc}
    (hitems : ∀ l items rest, readItems fuel l = some (items, rest) →
      ∃ x, l = x ++ rest ∧ Balanced x)
    (hmembers : ∀ l members rest, readMembers fuel l = some (members, rest) →
      ∃ x, l = x ++ rest ∧ Balanced x ∧ x.getLast? = some '\x7d' ∧
        ((scan .inside x).isSome = true → PlainKeys members))
    (h : Reads fuel rest text value) : ∃ x, text = x ++ rest ∧ Extent x value := by
  cases h with
  | str h =>
    obtain ⟨x, hx, hbalanced, -⟩ := balanced_string h
    exact ⟨x, hx, extent_of_ne_dict hbalanced nofun⟩
  | noItems h =>
    obtain ⟨x, rfl, hx⟩ := exists_blanks_of_skipBlanks h (by decide)
    refine ⟨'[' :: x, rfl, extent_of_ne_dict (balanced_outer ?_) nofun⟩
    exact List.forall_mem_cons.mpr ⟨by decide, hx⟩
  | @items tail items hopen h =>
    obtain ⟨blanks, htail, hblanks⟩ := exists_blanks tail
    obtain ⟨x, hx, hbalanced⟩ := hitems _ _ _ h
    rw [hx] at htail
    have hfirst := balanced_outer (List.forall_mem_cons.mpr ⟨by decide, hblanks⟩ :
      ∀ c ∈ '[' :: blanks, isOuter c = true)
    exact ⟨'[' :: blanks ++ x, by simp [htail], extent_of_ne_dict (hfirst.append hbalanced) nofun⟩
  | noMembers h =>
    obtain ⟨blanks, htail, hblanks⟩ := exists_blanks _
    rw [h] at htail
    have hfirst := balanced_outer (List.forall_mem_cons.mpr ⟨by decide, hblanks⟩ :
      ∀ c ∈ '\x7b' :: blanks, isOuter c = true)
    have hlast : Balanced ['\x7d'] :=
      balanced_outer (List.forall_mem_singleton.mpr (by decide))
    refine ⟨'\x7b' :: blanks ++ ['\x7d'], by simp [htail], hfirst.append hlast, ?_, ?_⟩
    · intro members _
      rw [List.getLast?_append]
      rfl
    · intro members hmembers _
      cases hmembers
      exact nofun
  | @members tail members hopen h =>
    obtain ⟨blanks, htail, hblanks⟩ := exists_blanks tail
    obtain ⟨x, hx, hbalanced, hlast, hplain⟩ := hmembers _ _ _ h
    rw [hx] at htail
    have hfirst := balanced_outer (List.forall_mem_cons.mpr ⟨by decide, hblanks⟩ :
      ∀ c ∈ '\x7b' :: blanks, isOuter c = true)
    refine ⟨'\x7b' :: blanks ++ x, by simp [htail], hfirst.append hbalanced, ?_, ?_⟩
    · intro _ _
      rw [List.getLast?_append, hlast]
      rfl
    · intro members' hmembers' hscan
      cases hmembers'
      exact plainKeys_distinct (hplain (hfirst.isSome_right hscan))
  | @word word _ hword hvalue hstop =>
    refine ⟨word, rfl, extent_of_ne_dict (balanced_outer fun c hc => ?_) ?_⟩
    · exact isOuter_of_isWord (hword c hc)
    · rintro members rfl
      exact wordValue_ne_dict hvalue

/-- A member with the letter after it. -/
theorem member_extent {fuel : Nat} {l start key colon after mid tail : List Char} {value : Doc}
    {c : Char} (hstart : skipBlanks l = quote :: start)
    (hkey : readString fuel start = some (key, colon)) (hcolon : skipBlanks colon = ':' :: after)
    (hvalue : ∃ blanks x, after = blanks ++ x ++ mid ∧ (∀ c ∈ blanks, isOuter c = true) ∧
      Extent x value)
    (hskip : skipBlanks mid = c :: tail) (hc : isOuter c = true) :
    ∃ x, l = x ++ tail ∧ Balanced x ∧ x.getLast? = some c ∧
      ((scan .inside x).isSome = true → ∀ d ∈ (String.ofList key).toList, isOuter d = true) := by
  obtain ⟨blanks, hl, hblanks⟩ := exists_blanks l
  rw [hstart] at hl
  obtain ⟨k, hk, hkbalanced, hkplain⟩ := balanced_string hkey
  obtain ⟨y, rfl, hy⟩ := exists_blanks_of_skipBlanks hcolon (by decide)
  obtain ⟨gap, x, rfl, hgap, hextent⟩ := hvalue
  obtain ⟨z, hz, hzblanks⟩ := exists_blanks mid
  rw [hskip] at hz
  have hfirst := (balanced_outer hblanks).append hkbalanced
  have hmiddle := (hfirst.append (balanced_outer hy)).append (balanced_outer hgap)
  have hlast := (balanced_outer hzblanks).append (balanced_outer (List.forall_mem_singleton.mpr hc))
  refine ⟨blanks ++ k ++ y ++ gap ++ x ++ (z ++ [c]), ?_,
    (hmiddle.append hextent.balanced).append hlast, ?_, fun hscan => ?_⟩
  · rw [hl, hk, hz]
    simp
  · simp
  · rw [String.toList_ofList]
    have hkey' : (scan .inside (blanks ++ k)).isSome = true := by
      simp only [List.append_assoc] at hscan
      rw [← List.append_assoc] at hscan
      exact isSome_scan_append hscan
    exact hkplain ((balanced_outer hblanks).isSome_right hkey')

/-- A value is read up to its end, items and members up to and with their closing bracket. -/
theorem read_extent (fuel : Nat) :
    (∀ l value rest, readValue fuel l = some (value, rest) → ∃ blanks x,
      l = blanks ++ x ++ rest ∧ (∀ c ∈ blanks, isOuter c = true) ∧ Extent x value) ∧
    (∀ l items rest, readItems fuel l = some (items, rest) → ∃ x, l = x ++ rest ∧ Balanced x) ∧
    ∀ l members rest, readMembers fuel l = some (members, rest) →
      ∃ x, l = x ++ rest ∧ Balanced x ∧ x.getLast? = some '\x7d' ∧
        ((scan .inside x).isSome = true → PlainKeys members) := by
  induction fuel with
  | zero => exact ⟨nofun, nofun, nofun⟩
  | succ fuel ih =>
    obtain ⟨hvalue, hitems, hmembers⟩ := ih
    refine ⟨fun l value rest h => ?_, fun l items rest h => ?_, fun l members rest h => ?_⟩
    · obtain ⟨x, hx, hextent⟩ := (reads_of_readValue h).extent hitems hmembers
      obtain ⟨blanks, hl, hblanks⟩ := exists_blanks l
      rw [hx, ← List.append_assoc] at hl
      exact ⟨blanks, x, hl, hblanks, hextent⟩
    · obtain ⟨item, mid, c, tail, hitem, hskip, hcases⟩ := readItems_succ.mp h
      obtain ⟨blanks, x, rfl, hblanks, hextent⟩ := hvalue _ _ _ hitem
      have hc : isOuter c = true := by
        rcases hcases with ⟨rfl, -⟩ | ⟨rfl, -⟩ <;> decide
      obtain ⟨y, rfl, hy⟩ := exists_blanks_of_skipBlanks hskip hc
      have hfirst := ((balanced_outer hblanks).append hextent.balanced).append (balanced_outer hy)
      rcases hcases with ⟨-, later, hlater, -⟩ | ⟨-, rfl, -⟩
      · obtain ⟨z, rfl, hz⟩ := hitems _ _ _ hlater
        exact ⟨blanks ++ x ++ y ++ z, by simp, hfirst.append hz⟩
      · exact ⟨blanks ++ x ++ y, by simp, hfirst⟩
    · obtain ⟨start, key, colon, after, value, mid, c, tail, hstart, hkey, hcolon, hread, hskip,
        hcases⟩ := readMembers_succ.mp h
      have hc : isOuter c = true := by
        rcases hcases with ⟨rfl, -⟩ | ⟨rfl, -⟩ <;> decide
      obtain ⟨w, rfl, hw, hlast, hletters⟩ :=
        member_extent hstart hkey hcolon (hvalue _ _ _ hread) hskip hc
      rcases hcases with ⟨-, later, hlater, rfl⟩ | ⟨rfl, rfl, rfl⟩
      · obtain ⟨y, rfl, hy, hlast', hplain⟩ := hmembers _ _ _ hlater
        refine ⟨w ++ y, by rw [List.append_assoc], hw.append hy, ?_, fun hscan => ?_⟩
        · rw [List.getLast?_append, hlast']
          rfl
        · exact List.forall_mem_cons.mpr
            ⟨hletters (isSome_scan_append hscan), hplain (hw.isSome_right hscan)⟩
      · exact ⟨w, rfl, hw, hlast, fun hscan => List.forall_mem_singleton.mpr (hletters hscan)⟩

/-! ## Cut texts -/

theorem loads_extent {l : List Char} {value : Doc} (h : loads l = some value) :
    ∃ blanks x rest, l = blanks ++ x ++ rest ∧ (∀ c ∈ blanks, isOuter c = true) ∧
      Extent x value ∧ ∀ c ∈ rest, isOuter c = true := by
  obtain ⟨rest, hread, hrest⟩ := loads_eq_some_iff.mp h
  obtain ⟨blanks, x, hl, hblanks, hx⟩ := (read_extent l.length).1 _ _ _ hread
  refine ⟨blanks, x, rest, hl, hblanks, hx, fun c hc => ?_⟩
  exact isOuter_of_isBlank (List.dropWhile_eq_nil_iff.mp hrest c hc)

theorem loads_balanced {l : List Char} {value : Doc} (h : loads l = some value) : Balanced l := by
  obtain ⟨blanks, x, rest, rfl, hblanks, hx, hrest⟩ := loads_extent h
  exact ((balanced_outer hblanks).append hx.balanced).append (balanced_outer hrest)

/-- A backtick stands in a string. -/
theorem scan_before_backtick {p r : List Char}
    (h : (scan .outside (p ++ '\x60' :: r)).isSome = true) :
    scan .outside p = some .inside ∧ (scan .inside r).isSome = true := by
  rw [scan_append] at h
  cases hmode : scan .outside p with
  | none =>
    rw [hmode] at h
    cases h
  | some mode =>
    rw [hmode] at h
    cases mode with
    | outside => cases h
    | inside => exact ⟨rfl, h⟩
    | escaped => cases h

/-- An object that is read from a place right after a backtick has only plain keys, also where
the text goes on with other letters. -/
theorem plainKeys_of_cut {text p r after gap q z : List Char} {value : Doc}
    {members : List (String × Doc)} (htext : loads text = some value)
    (hp : text = p ++ '\x60' :: r) (hgap : ∀ c ∈ gap, c ≠ quote ∧ c ≠ backslash)
    (hq : r ++ after = gap ++ q ++ z) (hafter : '\x7d' ∉ after)
    (hread : loads q = some (.dict members)) : PlainKeys members := by
  obtain ⟨blanks, x, rest, rfl, hblanks, hx, -⟩ := loads_extent hread
  obtain ⟨y, hy⟩ : ∃ y, r = gap ++ blanks ++ x ++ y := by
    have hparts : r ++ after = gap ++ blanks ++ x ++ (rest ++ z) := by
      rw [hq]
      simp
    rcases List.append_eq_append_iff.mp hparts with ⟨w, hw, hw'⟩ | ⟨w, hw, -⟩
    · -- The object would end after the text.
      cases w using List.reverseRecOn with
      | nil => exact ⟨[], by simpa using hw.symm⟩
      | append_singleton w c =>
        have hlast : (gap ++ blanks ++ x).getLast? = some '\x7d' := by
          rw [List.getLast?_append, hx.closed members rfl]
          rfl
        rw [hw, ← List.append_assoc, List.getLast?_concat] at hlast
        cases hlast
        exact absurd (by simp [hw']) hafter
    · exact ⟨w, hw⟩
  have htext' := (loads_balanced htext).outside
  have hsome : (scan .outside text).isSome = true := by
    rw [htext']
    rfl
  rw [hp] at hsome
  have hinside := (scan_before_backtick hsome).2
  rw [hy, List.append_assoc, List.append_assoc, scan_append, scan_inside hgap] at hinside
  exact hx.plain members rfl (isSome_scan_append ((balanced_outer hblanks).isSome_right hinside))

end json_reader
