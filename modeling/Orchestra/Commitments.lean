-- Commitments to the state of an agent (`interop/zkp.py`): the canonical text of a state,
-- and the hash over this text, the commitment before it and the nonce.
import Orchestra.Lib.Codes
import Orchestra.Lib.Json
import Mathlib.Data.List.Sort

open dicts jsons codes

namespace orchestra.commitments

/-! ## States -/

/-- A letter of the text of a number. -/
def isNumeric (c : Char) : Bool := c.isDigit || c = '-' || c = '+' || c = '.' || c = 'e'

/-- A finite float, by its text (`float.__repr__`), which has a point or an exponent. -/
structure PyFloat where
  text : String
  numeric : ∀ c ∈ text.toList, isNumeric c = true
  fraction : '.' ∈ text.toList ∨ 'e' ∈ text.toList

inductive JsonValue
  | null
  | bool (b : Bool)
  | int (i : Int)
  | float (x : PyFloat)
  | str (s : String)
  | arr (items : List JsonValue)
  | obj (members : List (String × JsonValue))

mutual

/-- No dict of the value has a key twice. -/
def JsonValue.Distinct : JsonValue → Prop
  | .arr items => DistinctItems items
  | .obj members => (members.map Prod.fst).Nodup ∧ DistinctMembers members
  | _ => True

def DistinctItems : List JsonValue → Prop
  | [] => True
  | item :: items => item.Distinct ∧ DistinctItems items

def DistinctMembers : List (String × JsonValue) → Prop
  | [] => True
  | (_, value) :: members => value.Distinct ∧ DistinctMembers members

end

/-- A state: a dict with texts as keys. -/
structure AgentState where
  members : List (String × JsonValue)
  distinct : (JsonValue.obj members).Distinct

/-- Values that are equal whatever the order of the keys in their dicts. -/
inductive Same : JsonValue → JsonValue → Prop
  | null : Same .null .null
  | bool (b : Bool) : Same (.bool b) (.bool b)
  | int (i : Int) : Same (.int i) (.int i)
  | float (x : PyFloat) : Same (.float x) (.float x)
  | str (s : String) : Same (.str s) (.str s)
  | arr {xs ys : List JsonValue} (items : List.Forall₂ Same xs ys) : Same (.arr xs) (.arr ys)
  | obj {xs ys : List (String × JsonValue)}
    (members : ∀ key, Option.Rel Same (xs.lookup key) (ys.lookup key)) :
    Same (.obj xs) (.obj ys)

def SameState (a b : AgentState) : Prop := Same (.obj a.members) (.obj b.members)

/-! ## The canonical text -/

def keyBefore (a b : String × JsonValue) : Prop := a.1 ≤ b.1

instance : DecidableRel keyBefore := fun a b => inferInstanceAs (Decidable (a.1 ≤ b.1))

mutual

/-- `sort_keys=True`, which sorts every dict of the value. -/
def sorted : JsonValue → JsonValue
  | .arr items => .arr (sortedItems items)
  | .obj members => .obj ((sortedMembers members).insertionSort keyBefore)
  | value => value

def sortedItems : List JsonValue → List JsonValue
  | [] => []
  | item :: items => sorted item :: sortedItems items

def sortedMembers : List (String × JsonValue) → List (String × JsonValue)
  | [] => []
  | (key, value) :: members => (key, sorted value) :: sortedMembers members

end

/-- A letter with `ensure_ascii=False`: only the quote, the backslash and control letters are
escaped. -/
def writeLetter (c : Char) : List Char :=
  match shortEscapes.lookup c with
  | some letter => [backslash, letter]
  | none => if c.toNat < 32 then writeUnit c.toNat else [c]

def writeText (s : String) : List Char := quote :: (s.toList.flatMap writeLetter ++ [quote])

mutual

/-- `json.dumps(value, separators=(",", ":"), ensure_ascii=False)` -/
def write : JsonValue → List Char
  | .null => ['n', 'u', 'l', 'l']
  | .bool true => ['t', 'r', 'u', 'e']
  | .bool false => ['f', 'a', 'l', 's', 'e']
  | .int i => writeInt i
  | .float x => x.text.toList
  | .str s => writeText s
  | .arr items => '[' :: writeItems items
  | .obj members => '\x7b' :: writeMembers members

def writeItems : List JsonValue → List Char
  | [] => [']']
  | [item] => write item ++ [']']
  | item :: next :: items => write item ++ ',' :: writeItems (next :: items)

def writeMembers : List (String × JsonValue) → List Char
  | [] => ['\x7d']
  | [(key, value)] => writeText key ++ ([':'] ++ write value) ++ ['\x7d']
  | (key, value) :: next :: members =>
    writeText key ++ ([':'] ++ write value) ++ ',' :: writeMembers (next :: members)

end

abbrev Bytes := List UInt8

/-- `text.encode("utf-8")` -/
def encodeUtf8 (text : List Char) : Bytes := text.flatMap String.utf8EncodeChar

/-- `jcs_canonicalize` -/
def jcsCanonicalize (state : AgentState) : Bytes :=
  encodeUtf8 (write (sorted (.obj state.members)))

/-! ## The commitment -/

structure CommitmentResult where
  commitment : Bytes
  nonce : Bytes
deriving DecidableEq, Repr

/-- `if previous_commitment: hasher.update(previous_commitment)` -/
def updatePrevious : Option Bytes → Bytes
  | some previous => if previous = [] then [] else previous
  | none => []

/-- What the hasher has been given. -/
def preimage (state : AgentState) (nonce : Bytes) (previousCommitment : Option Bytes) : Bytes :=
  jcsCanonicalize state ++ (updatePrevious previousCommitment ++ nonce)

/-- `StateCommitment.commit`. The nonce is drawn outside. -/
def commit (sha256 : Bytes → Bytes) (nonce : Bytes) (state : AgentState)
    (previousCommitment : Option Bytes) : CommitmentResult :=
  ⟨sha256 (preimage state nonce previousCommitment), nonce⟩

/-- `StateCommitment.verify` -/
def verify (sha256 : Bytes → Bytes) (state : AgentState) (commitment nonce : Bytes)
    (previousCommitment : Option Bytes) : Bool :=
  commitment = sha256 (preimage state nonce previousCommitment)

theorem verify_commit (sha256 : Bytes → Bytes) (nonce : Bytes) (state : AgentState)
    (previousCommitment : Option Bytes) :
    verify sha256 state (commit sha256 nonce state previousCommitment).commitment nonce
      previousCommitment = true :=
  decide_eq_true rfl

/-! ## The text of a value can be told from what follows -/

/-- What may follow a value. -/
def Ends (rest : List Char) : Prop := ∀ c, rest.head? = some c → isNumeric c = false

theorem readChar_writeLetter (c : Char) (rest : List Char) :
    readChar (writeLetter c ++ rest) = some (some c, rest) := by
  unfold writeLetter
  rcases hshort : shortEscapes.lookup c with _ | letter
  · have hnot : c ≠ quote ∧ c ≠ backslash := by
      constructor <;> (rintro rfl; simp [shortEscapes] at hshort)
    have hquote : backslash ≠ quote := by decide
    by_cases hcontrol : c.toNat < 32
    · simp only [hcontrol, if_true, writeUnit, List.cons_append, readChar, hquote, if_false]
      rw [readEscaped_unit (by omega)]
      rfl
    · simp [hcontrol, readChar, hnot.1, hnot.2]
  · exact readChar_short hshort rest

/-- The next letter of a string, when it is not its end. -/
def readLetter (l : List Char) : Option (Char × List Char) :=
  (readChar l).bind (fun p => p.1.map (·, p.2))

theorem splits_of_readChar {letter : Char → List Char}
    (h : ∀ c rest, readChar (letter c ++ rest) = some (some c, rest)) :
    Splits letter Anything := by
  have hread : ∀ c s, Anything s → readLetter (letter c ++ s) = some (c, s) := by
    intro c s _
    unfold readLetter
    rw [h]
    rfl
  exact splits_of_reader hread

theorem avoids_of_readChar {letter : Char → List Char}
    (h : ∀ c rest, readChar (letter c ++ rest) = some (some c, rest)) : Avoids letter quote := by
  intro c s hhead
  have hread := h c s
  rcases hl : letter c ++ s with _ | ⟨d, rest⟩
  · rw [hl] at hhead
    cases hhead
  · rw [hl] at hhead hread
    obtain rfl : d = quote := Option.some.inj hhead
    simp [readChar] at hread

/-- A way to write JSON: the letters of a text, and what stands behind a comma and a colon. -/
structure Style where
  letter : Char → List Char
  gap : List Char
  read : ∀ c rest, readChar (letter c ++ rest) = some (some c, rest)
  blank : ∀ c ∈ gap, isBlank c = true

namespace Style

variable (style : Style)

def text (s : String) : List Char := quote :: (s.toList.flatMap style.letter ++ [quote])

mutual

def write : JsonValue → List Char
  | .null => ['n', 'u', 'l', 'l']
  | .bool true => ['t', 'r', 'u', 'e']
  | .bool false => ['f', 'a', 'l', 's', 'e']
  | .int i => writeInt i
  | .float x => x.text.toList
  | .str s => style.text s
  | .arr items => '[' :: writeItems items
  | .obj members => '\x7b' :: writeMembers members

def writeItems : List JsonValue → List Char
  | [] => [']']
  | [item] => write item ++ [']']
  | item :: next :: items => write item ++ ',' :: (style.gap ++ writeItems (next :: items))

def writeMembers : List (String × JsonValue) → List Char
  | [] => ['\x7d']
  | [(key, value)] => style.text key ++ ((':' :: style.gap) ++ write value) ++ ['\x7d']
  | (key, value) :: next :: members =>
    style.text key ++ ((':' :: style.gap) ++ write value) ++
      ',' :: (style.gap ++ writeMembers (next :: members))

end

end Style

theorem splits_text (style : Style) : Splits style.text Anything := by
  intro x y s t _ _ heq
  obtain ⟨hlist, hst⟩ := splits_row (splits_of_readChar style.read)
    (avoids_of_readChar style.read) x.toList y.toList s t trivial trivial (List.cons.inj heq).2
  exact ⟨String.toList_inj.mp hlist, hst⟩

/-- Numbers are told apart by their texts. -/
theorem numeric_append {l m s t : List Char} (hl : ∀ c ∈ l, isNumeric c = true)
    (hm : ∀ c ∈ m, isNumeric c = true) (hs : Ends s) (ht : Ends t) (heq : l ++ s = m ++ t) :
    l = m ∧ s = t := by
  have hstop : ∀ {r : List Char}, Ends r → r.takeWhile isNumeric = [] := by
    intro r hr
    cases r with
    | nil => rfl
    | cons c r => simp [hr c rfl]
  have htake := congrArg (List.takeWhile isNumeric) heq
  rw [List.takeWhile_append_of_pos hl, List.takeWhile_append_of_pos hm, hstop hs, hstop ht,
    List.append_nil, List.append_nil] at htake
  rw [htake] at heq
  exact ⟨htake, List.append_cancel_left heq⟩

theorem numeric_writeInt (i : Int) : ∀ c ∈ writeInt i, isNumeric c = true ∧ c ≠ '.' ∧ c ≠ 'e' := by
  have hdigit : ∀ c, c.isDigit = true → isNumeric c = true ∧ c ≠ '.' ∧ c ≠ 'e' := by
    intro c hc
    refine ⟨by simp [isNumeric, hc], ?_, ?_⟩ <;> (rintro rfl; revert hc; decide)
  intro c hc
  unfold writeInt at hc
  split at hc
  · rcases List.mem_cons.mp hc with rfl | hc
    · decide
    · exact hdigit c (isDigit_of_mem_toDigits hc)
  · exact hdigit c (isDigit_of_mem_toDigits hc)

theorem writeInt_inj {i j : Int} (h : writeInt i = writeInt j) : i = j := by
  have hi := loads_dumps (j := .int i) trivial
  have hj := loads_dumps (j := .int j) trivial
  have hsame : dumps (.int i) = dumps (.int j) := congrArg String.ofList h
  rw [hsame, hj] at hi
  cases hi
  rfl

/-- The kinds of values that the first letter of a text tells apart. -/
inductive Kind
  | null
  | true
  | false
  | number
  | str
  | arr
  | obj
  | other
deriving DecidableEq

def kindOf (c : Char) : Kind :=
  if c = 'n' then .null
  else if c = 't' then .true
  else if c = 'f' then .false
  else if c = quote then .str
  else if c = '[' then .arr
  else if c = '\x7b' then .obj
  else if isNumeric c then .number
  else .other

def JsonValue.kind : JsonValue → Kind
  | .null => .null
  | .bool true => .true
  | .bool false => .false
  | .int _ | .float _ => .number
  | .str _ => .str
  | .arr _ => .arr
  | .obj _ => .obj

theorem kindOf_numeric {l : List Char} (hne : l ≠ []) (h : ∀ c ∈ l, isNumeric c = true) :
    ∃ c rest, l = c :: rest ∧ kindOf c = .number := by
  have hplain : ∀ c, isNumeric c = true → kindOf c = .number := by
    intro c hc
    have hnot : c ≠ 'n' ∧ c ≠ 't' ∧ c ≠ 'f' ∧ c ≠ quote ∧ c ≠ '[' ∧ c ≠ '\x7b' := by
      refine ⟨?_, ?_, ?_, ?_, ?_, ?_⟩ <;> (rintro rfl; revert hc; decide)
    simp [kindOf, hc, hnot]
  rcases l with _ | ⟨c, rest⟩
  · exact absurd rfl hne
  · exact ⟨c, rest, rfl, hplain c (h c (List.mem_cons_self ..))⟩

theorem writeInt_ne_nil (i : Int) : writeInt i ≠ [] := by
  unfold writeInt
  split
  · exact List.cons_ne_nil _ _
  · exact Nat.toDigits_ne_nil

theorem PyFloat.ne_nil (x : PyFloat) : x.text.toList ≠ [] := by
  intro hnil
  have h := x.fraction
  rw [hnil] at h
  simp at h

section

variable {style : Style}

/-- A text starts with a letter of its kind. -/
theorem write_starts (style : Style) (v : JsonValue) :
    ∃ c rest, style.write v = c :: rest ∧ kindOf c = v.kind := by
  cases v with
  | bool b => cases b <;> exact ⟨_, _, rfl, by decide⟩
  | int i => exact kindOf_numeric (writeInt_ne_nil i) (fun c hc => (numeric_writeInt i c hc).1)
  | float x => exact kindOf_numeric x.ne_nil x.numeric
  | null => exact ⟨_, _, rfl, by decide⟩
  | str s => exact ⟨_, _, rfl, show kindOf quote = .str by decide⟩
  | arr items => exact ⟨_, _, rfl, show kindOf '[' = .arr by decide⟩
  | obj members => exact ⟨_, _, rfl, show kindOf '\x7b' = .obj by decide⟩

theorem kind_eq {v w : JsonValue} {s t : List Char}
    (h : style.write v ++ s = style.write w ++ t) : v.kind = w.kind := by
  obtain ⟨c, rest, hv, hc⟩ := write_starts style v
  obtain ⟨d, rest', hw, hd⟩ := write_starts style w
  rw [hv, hw] at h
  rw [← hc, ← hd, (List.cons.inj h).1]

theorem avoids_write {c : Char} (h : kindOf c = .other) : Avoids style.write c := by
  intro v s hhead
  obtain ⟨d, rest, hv, hd⟩ := write_starts style v
  rw [hv] at hhead
  obtain rfl : d = c := Option.some.inj hhead
  rw [h] at hd
  cases v with
  | bool b => cases b <;> cases hd
  | _ => cases hd

/-- A member of a dict. -/
def Style.writeMember (style : Style) (m : String × JsonValue) : List Char :=
  style.text m.1 ++ ((':' :: style.gap) ++ style.write m.2)

theorem writeItems_eq (items : List JsonValue) :
    style.writeItems items = spacedCode style.write ',' ']' style.gap items := by
  induction items with
  | nil => rfl
  | cons item items ih =>
    cases items with
    | nil => rfl
    | cons next items =>
      show style.write item ++ ',' :: (style.gap ++ style.writeItems (next :: items)) = _
      rw [ih]
      rfl

theorem writeMembers_eq (members : List (String × JsonValue)) :
    style.writeMembers members =
      spacedCode style.writeMember ',' '\x7d' style.gap members := by
  induction members with
  | nil => rfl
  | cons m members ih =>
    cases members with
    | nil => rfl
    | cons next members =>
      show style.writeMember m ++ ',' :: (style.gap ++ style.writeMembers (next :: members)) = _
      rw [ih]
      rfl

theorem ends_comma_or (c : Char) (h : isNumeric c = false) (s : List Char) :
    Ends (',' :: s) ∧ Ends (c :: s) := by
  constructor
  · rintro d hd
    cases hd
    decide
  · rintro d hd
    cases hd
    exact h

theorem gap_ne (style : Style) {c : Char} (h : isBlank c = false) : style.gap.head? ≠ some c := by
  intro hhead
  have hblank := style.blank c (List.mem_of_mem_head? hhead)
  rw [h] at hblank
  cases hblank

theorem splits_int (i : Int) : SplitsAt style.write Ends (.int i) := by
  intro w s t hs ht heq
  have hkind := kind_eq heq
  cases w with
  | int j =>
    obtain ⟨hw, hst⟩ := numeric_append (fun c hc => (numeric_writeInt i c hc).1)
      (fun c hc => (numeric_writeInt j c hc).1) hs ht heq
    exact ⟨congrArg _ (writeInt_inj hw), hst⟩
  | float x =>
    obtain ⟨hw, -⟩ := numeric_append (fun c hc => (numeric_writeInt i c hc).1) x.numeric hs ht heq
    rcases x.fraction with hpoint | hexponent
    · rw [← hw] at hpoint
      exact absurd rfl (numeric_writeInt i _ hpoint).2.1
    · rw [← hw] at hexponent
      exact absurd rfl (numeric_writeInt i _ hexponent).2.2
  | bool b => cases b <;> cases hkind
  | _ => cases hkind

theorem PyFloat.ext_text {x y : PyFloat} (h : x.text = y.text) : x = y := by
  cases x
  cases y
  simp only at h
  subst h
  rfl

theorem splits_float (x : PyFloat) : SplitsAt style.write Ends (.float x) := by
  intro w s t hs ht heq
  have hkind := kind_eq heq
  cases w with
  | int i =>
    obtain ⟨hw, -⟩ := splits_int i (.float x) t s ht hs heq.symm
    cases hw
  | float y =>
    obtain ⟨hw, hst⟩ := numeric_append x.numeric y.numeric hs ht heq
    exact ⟨congrArg _ (PyFloat.ext_text (String.toList_inj.mp hw)), hst⟩
  | bool b => cases b <;> cases hkind
  | _ => cases hkind

theorem splits_null : SplitsAt style.write Ends .null := by
  intro w s t _ _ heq
  have hkind := kind_eq heq
  cases w with
  | null => exact ⟨rfl, List.append_cancel_left heq⟩
  | bool b => cases b <;> cases hkind
  | _ => cases hkind

theorem splits_bool (b : Bool) : SplitsAt style.write Ends (.bool b) := by
  intro w s t _ _ heq
  have hkind := kind_eq heq
  cases w with
  | bool b' =>
    obtain rfl : b = b' := by cases b <;> cases b' <;> first | rfl | cases hkind
    exact ⟨rfl, List.append_cancel_left heq⟩
  | _ => cases b <;> cases hkind

theorem splits_str (x : String) : SplitsAt style.write Ends (.str x) := by
  intro w s t _ _ heq
  have hkind := kind_eq heq
  cases w with
  | str y =>
    obtain ⟨hxy, hst⟩ := splits_text style x y s t trivial trivial heq
    exact ⟨congrArg _ hxy, hst⟩
  | bool b => cases b <;> cases hkind
  | _ => cases hkind

theorem splits_arr {xs : List JsonValue} (h : ∀ v ∈ xs, SplitsAt style.write Ends v) :
    SplitsAt style.write Ends (.arr xs) := by
  intro w s t _ _ heq
  have hkind := kind_eq heq
  cases w with
  | arr ys =>
    have hitems : style.writeItems xs ++ s = style.writeItems ys ++ t := (List.cons.inj heq).2
    rw [writeItems_eq, writeItems_eq] at hitems
    obtain ⟨hxy, hst⟩ := splitsAt_spacedCode (by decide) (ends_comma_or ']' (by decide))
      (avoids_write (by decide)) (gap_ne style (by decide)) h ys s t trivial trivial hitems
    exact ⟨congrArg _ hxy, hst⟩
  | bool b => cases b <;> cases hkind
  | _ => cases hkind

/-- A dict can be told from anything that follows it. -/
theorem splits_obj {xs : List (String × JsonValue)}
    (h : ∀ m ∈ xs, SplitsAt style.writeMember Ends m) :
    SplitsAt style.write Anything (.obj xs) := by
  intro w s t _ _ heq
  have hkind := kind_eq heq
  have havoids : Avoids style.writeMember '\x7d' := by
    intro m s h
    cases h
  cases w with
  | obj ys =>
    have hmembers : style.writeMembers xs ++ s = style.writeMembers ys ++ t :=
      (List.cons.inj heq).2
    rw [writeMembers_eq, writeMembers_eq] at hmembers
    obtain ⟨hxy, hst⟩ := splitsAt_spacedCode (by decide) (ends_comma_or '\x7d' (by decide))
      havoids (gap_ne style (by decide)) h ys s t trivial trivial hmembers
    exact ⟨congrArg _ hxy, hst⟩
  | bool b => cases b <;> cases hkind
  | _ => cases hkind

mutual

theorem splits_write (v : JsonValue) : SplitsAt style.write Ends v := by
  match v with
  | .null => exact splits_null
  | .bool b => exact splits_bool b
  | .int i => exact splits_int i
  | .float x => exact splits_float x
  | .str x => exact splits_str x
  | .arr xs => exact splits_arr (splits_items xs)
  | .obj xs => exact (splits_obj (splits_members xs)).mono (fun _ _ => trivial)

theorem splits_items (items : List JsonValue) : ∀ v ∈ items, SplitsAt style.write Ends v := by
  match items with
  | [] => simp
  | v :: items => exact List.forall_mem_cons.mpr ⟨splits_write v, splits_items items⟩

theorem splits_members (members : List (String × JsonValue)) :
    ∀ m ∈ members, SplitsAt style.writeMember Ends m := by
  match members with
  | [] => simp
  | (key, value) :: members =>
    exact List.forall_mem_cons.mpr
      ⟨(splits_text style key).pair (splits_write value) (':' :: style.gap),
        splits_members members⟩

end

end

/-- The style of the canonical text. -/
def jcs : Style where
  letter := writeLetter
  gap := []
  read := readChar_writeLetter
  blank := by simp

mutual

theorem write_eq (v : JsonValue) : write v = jcs.write v := by
  match v with
  | .null | .bool true | .bool false | .int _ | .float _ | .str _ => rfl
  | .arr items => exact congrArg (List.cons _) (writeItems_jcs items)
  | .obj members => exact congrArg (List.cons _) (writeMembers_jcs members)

theorem writeItems_jcs (items : List JsonValue) : writeItems items = jcs.writeItems items := by
  match items with
  | [] => rfl
  | [item] =>
    rw [writeItems, write_eq item]
    rfl
  | item :: next :: items =>
    rw [writeItems, write_eq item, writeItems_jcs (next :: items)]
    rfl

theorem writeMembers_jcs (members : List (String × JsonValue)) :
    writeMembers members = jcs.writeMembers members := by
  match members with
  | [] => rfl
  | [(key, value)] =>
    rw [writeMembers, write_eq value]
    rfl
  | (key, value) :: next :: members =>
    rw [writeMembers, write_eq value, writeMembers_jcs (next :: members)]
    rfl

end

/-! ## Sorted texts are for equal states -/

theorem lookup_sortedMembers (members : List (String × JsonValue)) (key : String) :
    (sortedMembers members).lookup key = (members.lookup key).map sorted := by
  induction members with
  | nil => rfl
  | cons m members ih =>
    obtain ⟨k, v⟩ := m
    rw [sortedMembers, List.lookup_cons, List.lookup_cons]
    split
    · rfl
    · exact ih

@[simp] theorem keys_sortedMembers (members : List (String × JsonValue)) :
    (sortedMembers members).map Prod.fst = members.map Prod.fst := by
  induction members with
  | nil => rfl
  | cons m members ih => simp [sortedMembers, ih]

/-- Members with different keys have one sorted order. -/
theorem insertionSort_eq_iff {xs ys : List (String × JsonValue)} (hx : (xs.map Prod.fst).Nodup)
    (hy : (ys.map Prod.fst).Nodup) :
    xs.insertionSort keyBefore = ys.insertionSort keyBefore ↔
      ∀ key, xs.lookup key = ys.lookup key :=
  sortByKey_eq_iff hx hy

theorem distinct_of_lookup {members : List (String × JsonValue)} (h : DistinctMembers members)
    (key : String) : ∀ v ∈ members.lookup key, v.Distinct := by
  induction members with
  | nil => simp
  | cons m members ih =>
    obtain ⟨k, v⟩ := m
    rw [List.lookup_cons]
    split
    · intro w hw
      cases hw
      exact h.1
    · exact ih h.2

mutual

theorem same_of_sorted (v : JsonValue) {w : JsonValue} (hv : v.Distinct) (hw : w.Distinct)
    (h : sorted v = sorted w) : Same v w := by
  match v, w with
  | .arr xs, .arr ys => exact .arr (same_items_of_sorted xs hv hw (JsonValue.arr.inj h))
  | .obj xs, .obj ys =>
    refine .obj (fun key => ?_)
    have hlookup := (insertionSort_eq_iff (by rw [keys_sortedMembers]; exact hv.1)
      (by rw [keys_sortedMembers]; exact hw.1)).mp (JsonValue.obj.inj h) key
    rw [lookup_sortedMembers, lookup_sortedMembers] at hlookup
    exact same_member_of_sorted xs key hv.2 (distinct_of_lookup hw.2 key) hlookup
  | .null, .null => exact .null
  | .bool b, .bool c =>
    cases h
    exact .bool b
  | .int i, .int j =>
    cases h
    exact .int i
  | .float x, .float y =>
    cases h
    exact .float x
  | .str x, .str y =>
    cases h
    exact .str x
  | .null, .bool _ | .null, .int _ | .null, .float _ | .null, .str _ | .null, .arr _
  | .null, .obj _ | .bool _, .null | .bool _, .int _ | .bool _, .float _ | .bool _, .str _
  | .bool _, .arr _ | .bool _, .obj _ | .int _, .null | .int _, .bool _ | .int _, .float _
  | .int _, .str _ | .int _, .arr _ | .int _, .obj _ | .float _, .null | .float _, .bool _
  | .float _, .int _ | .float _, .str _ | .float _, .arr _ | .float _, .obj _ | .str _, .null
  | .str _, .bool _ | .str _, .int _ | .str _, .float _ | .str _, .arr _ | .str _, .obj _
  | .arr _, .null | .arr _, .bool _ | .arr _, .int _ | .arr _, .float _ | .arr _, .str _
  | .arr _, .obj _ | .obj _, .null | .obj _, .bool _ | .obj _, .int _ | .obj _, .float _
  | .obj _, .str _ | .obj _, .arr _ => cases h

theorem same_items_of_sorted (xs : List JsonValue) {ys : List JsonValue} (hx : DistinctItems xs)
    (hy : DistinctItems ys) (h : sortedItems xs = sortedItems ys) : List.Forall₂ Same xs ys := by
  match xs, ys with
  | [], [] => exact .nil
  | [], _ :: _ | _ :: _, [] => cases h
  | x :: xs, y :: ys =>
    obtain ⟨hfirst, hrest⟩ := List.cons.inj h
    exact .cons (same_of_sorted x hx.1 hy.1 hfirst) (same_items_of_sorted xs hx.2 hy.2 hrest)

theorem same_member_of_sorted (xs : List (String × JsonValue)) (key : String)
    {w : Option JsonValue} (hx : DistinctMembers xs) (hw : ∀ v ∈ w, v.Distinct)
    (h : (xs.lookup key).map sorted = w.map sorted) : Option.Rel Same (xs.lookup key) w := by
  match xs with
  | [] =>
    rcases w with _ | v
    · exact .none
    · cases h
  | (k, v) :: xs =>
    rw [List.lookup_cons] at h ⊢
    split at h
    · rcases w with _ | v'
      · cases h
      · exact .some (same_of_sorted v hx.1 (hw v' rfl) (Option.some.inj h))
    · exact same_member_of_sorted xs key hx.2 hw h

end

mutual

theorem sorted_of_same (v : JsonValue) {w : JsonValue} (hv : v.Distinct) (hw : w.Distinct)
    (h : Same v w) : sorted v = sorted w := by
  match v, w, h with
  | .arr xs, .arr _, .arr items =>
    exact congrArg JsonValue.arr (sortedItems_of_same xs hv hw items)
  | .obj xs, .obj ys, .obj members =>
    refine congrArg JsonValue.obj ((insertionSort_eq_iff (by rw [keys_sortedMembers]; exact hv.1)
      (by rw [keys_sortedMembers]; exact hw.1)).mpr (fun key => ?_))
    rw [lookup_sortedMembers, lookup_sortedMembers]
    exact sorted_member_of_same xs key hv.2 (distinct_of_lookup hw.2 key) (members key)
  | _, _, .null => rfl
  | _, _, .bool b => rfl
  | _, _, .int i => rfl
  | _, _, .float x => rfl
  | _, _, .str s => rfl

theorem sortedItems_of_same (xs : List JsonValue) {ys : List JsonValue} (hx : DistinctItems xs)
    (hy : DistinctItems ys) (h : List.Forall₂ Same xs ys) : sortedItems xs = sortedItems ys := by
  match xs, h with
  | [], .nil => rfl
  | x :: xs, .cons first rest =>
    rw [sortedItems, sortedItems, sorted_of_same x hx.1 hy.1 first,
      sortedItems_of_same xs hx.2 hy.2 rest]

theorem sorted_member_of_same (xs : List (String × JsonValue)) (key : String)
    {w : Option JsonValue} (hx : DistinctMembers xs) (hw : ∀ v ∈ w, v.Distinct)
    (h : Option.Rel Same (xs.lookup key) w) : (xs.lookup key).map sorted = w.map sorted := by
  match xs with
  | [] =>
    cases h
    rfl
  | (k, v) :: xs =>
    rw [List.lookup_cons] at h ⊢
    split at h
    · cases h with
      | some hv => exact congrArg some (sorted_of_same v hx.1 (hw _ rfl) hv)
    · exact sorted_member_of_same xs key hx.2 hw h

end

theorem sorted_eq_iff {a b : AgentState} :
    sorted (.obj a.members) = sorted (.obj b.members) ↔ SameState a b :=
  ⟨same_of_sorted _ a.distinct b.distinct, sorted_of_same _ a.distinct b.distinct⟩

/-! ## The bytes of a state can be told from what follows -/

theorem encodeUtf8_eq (text : List Char) : text.utf8Encode = (encodeUtf8 text).toByteArray := rfl

theorem encodeUtf8_injective {l m : List Char} (h : encodeUtf8 l = encodeUtf8 m) : l = m := by
  have hbytes : l.utf8Encode = m.utf8Encode := by rw [encodeUtf8_eq, encodeUtf8_eq, h]
  have htexts : String.ofList l = String.ofList m := String.toByteArray_inj.mp hbytes
  exact String.ofList_inj.mp htexts

/-- Of two texts with bytes behind them, one goes on with the other. -/
theorem prefix_of_encoded {l m : List Char} {s t : Bytes}
    (h : encodeUtf8 l ++ s = encodeUtf8 m ++ t) : l <+: m ∨ m <+: l := by
  rcases List.append_eq_append_iff.mp h with ⟨r, hm, -⟩ | ⟨r, hl, -⟩
  · left
    refine List.isPrefix_of_utf8Encode_append_eq_utf8Encode r.toByteArray ?_
    rw [encodeUtf8_eq, encodeUtf8_eq, hm, List.toByteArray_append]
  · right
    refine List.isPrefix_of_utf8Encode_append_eq_utf8Encode r.toByteArray ?_
    rw [encodeUtf8_eq, encodeUtf8_eq, hl, List.toByteArray_append]

/-- The canonical bytes of a state are those of equal states only, and no other state has
bytes that begin with them. -/
theorem jcsCanonicalize_splits {a b : AgentState} {s t : Bytes}
    (h : jcsCanonicalize a ++ s = jcsCanonicalize b ++ t) : SameState a b ∧ s = t := by
  have hsplits (members : List (String × JsonValue)) :
      SplitsAt write Anything (.obj members) := by
    rw [funext write_eq]
    exact splits_obj (splits_members members)
  have hsorted : sorted (.obj a.members) = sorted (.obj b.members) := by
    rcases prefix_of_encoded h with ⟨r, hr⟩ | ⟨r, hr⟩
    · exact (hsplits _ _ r [] trivial trivial (by rw [List.append_nil]; exact hr)).1
    · exact (hsplits _ _ r [] trivial trivial (by rw [List.append_nil]; exact hr)).1.symm
  refine ⟨sorted_eq_iff.mp hsorted, ?_⟩
  unfold jcsCanonicalize at h
  rw [hsorted] at h
  exact List.append_cancel_left h

theorem jcsCanonicalize_eq_iff {a b : AgentState} :
    jcsCanonicalize a = jcsCanonicalize b ↔ SameState a b := by
  constructor
  · intro h
    exact (jcsCanonicalize_splits (congrArg (· ++ []) h)).1
  · intro h
    unfold jcsCanonicalize
    rw [sorted_eq_iff.mpr h]

/-! ## What a commitment binds -/

/-- What is given to open a commitment. -/
structure Opening where
  state : AgentState
  nonce : Bytes
  previousCommitment : Option Bytes

def Opening.accepted (sha256 : Bytes → Bytes) (commitment : Bytes) (o : Opening) : Bool :=
  verify sha256 o.state commitment o.nonce o.previousCommitment

/-- No commitment has both openings, unless they are for equal states and for the same
commitment before. -/
def Binds (sha256 : Bytes → Bytes) (o p : Opening) : Prop :=
  ∀ commitment, o.accepted sha256 commitment = true → p.accepted sha256 commitment = true →
    SameState o.state p.state ∧ o.previousCommitment = p.previousCommitment

/-- The bytes of the chain and of the nonce, which nothing separates. -/
def Opening.tail (o : Opening) : Bytes := o.previousCommitment.getD [] ++ o.nonce

/-- Where the openings go on with the same bytes behind equal states, these bytes are cut at
one place, and both openings have a commitment before or none has. -/
def CutAlike (o p : Opening) : Prop :=
  SameState o.state p.state → o.tail = p.tail →
    o.nonce.length = p.nonce.length ∧
      (o.previousCommitment = none ↔ p.previousCommitment = none)

theorem updatePrevious_eq (previous : Option Bytes) :
    updatePrevious previous = previous.getD [] := by
  rcases previous with _ | bytes
  · rfl
  · show (if bytes = [] then [] else bytes) = bytes
    split
    · rename_i hnil
      exact hnil.symm
    · rfl

theorem accepted_iff {sha256 : Bytes → Bytes} {commitment : Bytes} {o : Opening} :
    o.accepted sha256 commitment = true ↔
      commitment = sha256 (jcsCanonicalize o.state ++ o.tail) := by
  unfold Opening.accepted verify preimage Opening.tail
  rw [updatePrevious_eq]
  exact decide_eq_true_iff

/-- Both openings are accepted exactly when all that is hashed is equal. -/
theorem accepted_both_iff {sha256 : Bytes → Bytes} (hsha : Function.Injective sha256)
    {o p : Opening} :
    (∃ commitment, o.accepted sha256 commitment = true ∧ p.accepted sha256 commitment = true) ↔
      SameState o.state p.state ∧ o.tail = p.tail := by
  constructor
  · rintro ⟨commitment, ho, hp⟩
    have hsame := hsha ((accepted_iff.mp ho).symm.trans (accepted_iff.mp hp))
    exact jcsCanonicalize_splits hsame
  · rintro ⟨hstate, htail⟩
    refine ⟨_, accepted_iff.mpr rfl, accepted_iff.mpr ?_⟩
    rw [jcsCanonicalize_eq_iff.mpr hstate, htail]

theorem previous_of_cut {o p : Opening} (htail : o.tail = p.tail)
    (hlength : o.nonce.length = p.nonce.length)
    (hnone : o.previousCommitment = none ↔ p.previousCommitment = none) :
    o.previousCommitment = p.previousCommitment := by
  have hbytes := (List.append_inj' htail hlength).1
  rcases ho : o.previousCommitment with _ | x
  · exact (hnone.mp ho).symm
  · rcases hp : p.previousCommitment with _ | y
    · rw [hnone.mpr hp] at ho
      cases ho
    · rw [ho, hp] at hbytes
      exact congrArg some hbytes

/-- A commitment always binds the state. It binds the commitment before exactly when the two
openings do not cut the same bytes at different places. -/
theorem commitment_binds_iff (sha256 : Bytes → Bytes) (hsha : Function.Injective sha256)
    (o p : Opening) : Binds sha256 o p ↔ CutAlike o p := by
  constructor
  · intro h hstate htail
    obtain ⟨commitment, ho, hp⟩ := (accepted_both_iff hsha).mpr ⟨hstate, htail⟩
    have hprevious := (h commitment ho hp).2
    unfold Opening.tail at htail
    rw [hprevious] at htail
    exact ⟨congrArg List.length (List.append_cancel_left htail), by rw [hprevious]⟩
  · intro h commitment ho hp
    obtain ⟨hstate, htail⟩ := (accepted_both_iff hsha).mp ⟨commitment, ho, hp⟩
    obtain ⟨hlength, hnone⟩ := h hstate htail
    exact ⟨hstate, previous_of_cut htail hlength hnone⟩

/-- The bytes that one opening has as its nonce. -/
def drawn : Bytes := (List.range 32).map UInt8.ofNat

def account : AgentState :=
  ⟨[("id", .str "é"), ("balance", .int 1)], by decide, trivial, trivial, trivial⟩

/-- The same dict, written in another order. -/
def reordered : AgentState :=
  ⟨[("balance", .int 1), ("id", .str "é")], by decide, trivial, trivial, trivial⟩

theorem two_orders_bind :
    Binds id ⟨account, drawn, some drawn.reverse⟩ ⟨reordered, drawn, some drawn.reverse⟩ :=
  (commitment_binds_iff id Function.injective_id _ _).mpr (fun _ _ => ⟨rfl, Iff.rfl⟩)

/-- A commitment without a chain can be opened with one: half of its nonce serves as the
commitment before, whatever the hash. -/
theorem half_a_nonce_serves_as_chain :
    ¬ ∃ sha256 : Bytes → Bytes,
      Binds sha256 ⟨account, drawn, none⟩ ⟨account, drawn.drop 16, some (drawn.take 16)⟩ := by
  rintro ⟨sha256, hbinds⟩
  have hprevious := (hbinds _ (accepted_iff.mpr rfl) (accepted_iff.mpr rfl)).2
  cases hprevious

end orchestra.commitments
