-- The canonical form of JSON values in RFC 8785, and the values of which `jcs_canonicalize`
-- (`interop/zkp.py`) gives it.
import Mathlib.Data.List.Pairwise
import Orchestra.Commitments
import Orchestra.Lib.Utf16

open jsons (quote backslash writeInt writeUnit shortEscapes)
open codes dicts orchestra.commitments

namespace orchestra.canonical

/-! ## The standard -/

/-- A letter of a text (section 3.2.2.2): two signs for a quote, a backslash and five of the control
letters, four hexadecimal digits for the others, and else the letter itself. -/
def escape (c : Char) : List Char :=
  match c.toNat with
  | 0x22 => [backslash, quote]
  | 0x5C => [backslash, backslash]
  | 0x08 => [backslash, 'b']
  | 0x09 => [backslash, 't']
  | 0x0A => [backslash, 'n']
  | 0x0C => [backslash, 'f']
  | 0x0D => [backslash, 'r']
  | n =>
    if n < 0x20 then [backslash, 'u', '0', '0', (n / 16).digitChar, (n % 16).digitChar] else [c]

def textOfString (s : String) : List Char := [quote] ++ s.toList.flatMap escape ++ [quote]

mutual

/-- The text of a value whose objects are sorted (section 3.2.2). Below 2^53 the shortest text of a
whole number is its decimal one. -/
def text : JsonValue → List Char
  | .null => "null".toList
  | .bool b => (toString b).toList
  | .int i => (toString i).toList
  | .float _ => []
  | .str s => textOfString s
  | .arr items => ['['] ++ [','].intercalate (texts items) ++ [']']
  | .obj members => ['\x7b'] ++ [','].intercalate (memberTexts members) ++ ['\x7d']

def texts : List JsonValue → List (List Char)
  | [] => []
  | item :: items => text item :: texts items

def memberTexts : List (String × JsonValue) → List (List Char)
  | [] => []
  | (key, value) :: members => (textOfString key ++ [':'] ++ text value) :: memberTexts members

end

/-- The order of names by their code units (section 3.2.3). -/
def unitsBefore (a b : String × JsonValue) : Prop :=
  ¬ utf16.encode b.1.toList < utf16.encode a.1.toList

instance : DecidableRel unitsBefore := fun a b =>
  inferInstanceAs (Decidable (¬ utf16.encode b.1.toList < utf16.encode a.1.toList))

mutual

/-- The value with the members of all its objects in order. -/
def arranged : JsonValue → JsonValue
  | .arr items => .arr (arrangedItems items)
  | .obj members => .obj ((arrangedMembers members).insertionSort unitsBefore)
  | value => value

def arrangedItems : List JsonValue → List JsonValue
  | [] => []
  | item :: items => arranged item :: arrangedItems items

def arrangedMembers : List (String × JsonValue) → List (String × JsonValue)
  | [] => []
  | (key, value) :: members => (key, arranged value) :: arrangedMembers members

end

/-- The canonical form of a value. -/
def canonicalForm (v : JsonValue) : Bytes := encodeUtf8 (text (arranged v))

/-- `jcs_canonicalize` of a value of any kind. -/
def canonicalize (v : JsonValue) : Bytes := encodeUtf8 (write (sorted v))

theorem jcsCanonicalize_eq (state : AgentState) :
    jcsCanonicalize state = canonicalize (.obj state.members) := rfl

/-! ## The values that are meant -/

mutual

/-- All numbers of the value are whole, and doubles have them exactly. -/
def Exact : JsonValue → Prop
  | .int i => i.natAbs < 2 ^ 53
  | .float _ => False
  | .arr items => ExactItems items
  | .obj members => ExactMembers members
  | _ => True

def ExactItems : List JsonValue → Prop
  | [] => True
  | item :: items => Exact item ∧ ExactItems items

def ExactMembers : List (String × JsonValue) → Prop
  | [] => True
  | (_, value) :: members => Exact value ∧ ExactMembers members

end

/-- Two of the keys cross. -/
def CrossedKeys (members : List (String × JsonValue)) : Prop :=
  ∃ a ∈ members, ∃ b ∈ members, utf16.Crossed a.1.toList b.1.toList

mutual

/-- An object of the value has two keys that cross. -/
def Crosses : JsonValue → Prop
  | .arr items => CrossesItems items
  | .obj members => CrossedKeys members ∨ CrossesMembers members
  | _ => False

def CrossesItems : List JsonValue → Prop
  | [] => False
  | item :: items => Crosses item ∨ CrossesItems items

def CrossesMembers : List (String × JsonValue) → Prop
  | [] => False
  | (_, value) :: members => Crosses value ∨ CrossesMembers members

end

/-! ## The two writers agree -/

theorem escape_eq (c : Char) : writeLetter c = escape c := by
  have hascii : ∀ n < 128, writeLetter (Char.ofNat n) = escape (Char.ofNat n) := by decide +kernel
  rcases Nat.lt_or_ge c.toNat 128 with hlow | hhigh
  · rw [← Char.ofNat_toNat c]
    exact hascii c.toNat hlow
  · have hplain : ∀ e ∈ shortEscapes, (c == e.1) = false := by
      intro e he
      have hlow : e.1.toNat < 128 := by
        revert e
        decide
      rw [beq_eq_false_iff_ne]
      rintro rfl
      omega
    have hescape : escape c = [c] := by
      unfold escape
      split
      all_goals first | omega | skip
      rw [if_neg (by omega)]
    have hnone : shortEscapes.lookup c = none := List.lookup_eq_none_iff.mpr (by simpa using hplain)
    unfold writeLetter
    rw [hnone, hescape]
    exact if_neg (by omega)

theorem writeText_eq (s : String) : writeText s = textOfString s := by
  unfold writeText textOfString
  rw [funext escape_eq]
  rfl

theorem writeInt_eq (i : Int) : writeInt i = (toString i).toList := by
  unfold writeInt
  cases i with
  | ofNat n =>
    rw [if_neg (by simp)]
    exact String.toList_ofList.symm
  | negSucc n =>
    rw [if_pos (Int.negSucc_lt_zero n)]
    have htext : (toString (Int.negSucc n)).toList = ("-" ++ Nat.repr (n + 1)).toList := rfl
    rw [htext, String.toList_append, Nat.repr, String.toList_ofList, String.toList_ofList]
    rfl

mutual

theorem write_eq_text (v : JsonValue) (h : Exact v) : write v = text v := by
  match v with
  | .null | .bool true | .bool false => rfl
  | .int i => exact writeInt_eq i
  | .float _ => exact absurd h id
  | .str s => exact writeText_eq s
  | .arr items =>
    rw [write, text, writeItems_eq_texts items h]
    rfl
  | .obj members =>
    rw [write, text, writeMembers_eq_texts members h]
    rfl

theorem writeItems_eq_texts (items : List JsonValue) (h : ExactItems items) :
    writeItems items = [','].intercalate (texts items) ++ [']'] := by
  match items with
  | [] => rfl
  | [item] =>
    rw [writeItems, write_eq_text item h.1]
    simp [texts, List.intercalate]
  | item :: next :: items =>
    rw [writeItems, write_eq_text item h.1, writeItems_eq_texts (next :: items) h.2]
    simp [texts, List.intercalate]

theorem writeMembers_eq_texts (members : List (String × JsonValue)) (h : ExactMembers members) :
    writeMembers members = [','].intercalate (memberTexts members) ++ ['\x7d'] := by
  match members with
  | [] => rfl
  | [(key, value)] =>
    rw [writeMembers, write_eq_text value h.1, writeText_eq]
    simp [memberTexts, List.intercalate]
  | (key, value) :: next :: members =>
    rw [writeMembers, write_eq_text value h.1, writeText_eq,
      writeMembers_eq_texts (next :: members) h.2]
    simp [memberTexts, List.intercalate]

end

/-! ## Sorting keeps the values -/

theorem exactMembers_iff {members : List (String × JsonValue)} :
    ExactMembers members ↔ ∀ m ∈ members, Exact m.2 := by
  induction members with
  | nil => simp [ExactMembers]
  | cons m members ih =>
    obtain ⟨key, value⟩ := m
    simp [ExactMembers, ih]

theorem keys_arrangedMembers (members : List (String × JsonValue)) :
    (arrangedMembers members).map Prod.fst = members.map Prod.fst := by
  induction members with
  | nil => rfl
  | cons m members ih => simp [arrangedMembers, ih]

mutual

theorem exact_arranged (v : JsonValue) (h : Exact v) : Exact (arranged v) := by
  match v with
  | .null | .bool _ | .int _ | .str _ => exact h
  | .float _ => exact h
  | .arr items => exact exact_arrangedItems items h
  | .obj members =>
    refine exactMembers_iff.mpr fun m hm => ?_
    rw [List.mem_insertionSort] at hm
    exact exactMembers_iff.mp (exact_arrangedMembers members h) m hm

theorem exact_arrangedItems (items : List JsonValue) (h : ExactItems items) :
    ExactItems (arrangedItems items) := by
  match items with
  | [] => trivial
  | item :: items => exact ⟨exact_arranged item h.1, exact_arrangedItems items h.2⟩

theorem exact_arrangedMembers (members : List (String × JsonValue)) (h : ExactMembers members) :
    ExactMembers (arrangedMembers members) := by
  match members with
  | [] => trivial
  | (_, value) :: members => exact ⟨exact_arranged value h.1, exact_arrangedMembers members h.2⟩

end

/-! ## Where the two orders agree -/

theorem crossedKeys_iff {xs ys : List (String × JsonValue)}
    (h : xs.map Prod.fst = ys.map Prod.fst) : CrossedKeys xs ↔ CrossedKeys ys := by
  have hkeys (zs : List (String × JsonValue)) : CrossedKeys zs ↔
      ∃ a ∈ zs.map Prod.fst, ∃ b ∈ zs.map Prod.fst, utf16.Crossed a.toList b.toList := by
    simp [CrossedKeys]
  rw [hkeys, hkeys, h]

theorem keyBefore_total (xs : List (String × JsonValue)) :
    (xs.insertionSort keyBefore).Pairwise keyBefore := by
  have htotal : Std.Total keyBefore := ⟨fun a b => String.le_total a.1 b.1⟩
  have htrans : IsTrans _ keyBefore := ⟨fun a b c => String.le_trans⟩
  exact List.pairwise_insertionSort _ xs

theorem unitsBefore_total (xs : List (String × JsonValue)) :
    (xs.insertionSort unitsBefore).Pairwise unitsBefore := by
  have htotal : Std.Total unitsBefore :=
    ⟨fun a b => (Decidable.em (unitsBefore a b)).imp_right fun h hba =>
      List.lt_asymm (Decidable.of_not_not h) hba⟩
  have htrans : IsTrans _ unitsBefore :=
    ⟨fun a b c hab hbc => List.not_lt.mpr (List.le_trans (List.not_lt.mp hab) (List.not_lt.mp hbc))⟩
  exact List.pairwise_insertionSort _ xs

/-- Where no keys cross, members that are in order by units are in order by letters. -/
theorem keyBefore_of_unitsBefore {xs : List (String × JsonValue)} (h : ¬ CrossedKeys xs)
    {a b : String × JsonValue} (ha : a ∈ xs) (hb : b ∈ xs) (hab : unitsBefore a b) :
    keyBefore a b := by
  have hcross {x y : String × JsonValue} (hx : x ∈ xs) (hy : y ∈ xs) :
      ¬ utf16.Crossed x.1.toList y.1.toList := fun hxy => h ⟨x, hx, y, hy, hxy⟩
  unfold unitsBefore at hab
  rw [utf16.encode_lt_iff (hcross hb ha) (hcross ha hb)] at hab
  exact hab

/-- The members stand one way in both orders. -/
def Aligned (a b : String × JsonValue) : Prop :=
  keyBefore a b ∧ unitsBefore a b ∨ keyBefore b a ∧ unitsBefore b a

instance : Std.Symm Aligned := ⟨fun _ _ => Or.symm⟩

/-- Members with different keys have one order by letters and by units exactly when no keys
cross. -/
theorem sort_eq_iff {xs : List (String × JsonValue)} (hnodup : (xs.map Prod.fst).Nodup) :
    xs.insertionSort keyBefore = xs.insertionSort unitsBefore ↔ ¬ CrossedKeys xs := by
  constructor
  · rintro h ⟨a, ha, b, hb, hcross⟩
    obtain ⟨hletters, hunits⟩ := utf16.lt_of_crossed hcross
    have haligned : (xs.insertionSort keyBefore).Pairwise Aligned :=
      ((keyBefore_total xs).and (h ▸ unitsBefore_total xs)).imp .inl
    have hne : a ≠ b := by
      rintro rfl
      exact List.lt_irrefl _ hletters
    rcases haligned.forall ((List.mem_insertionSort _).mpr ha)
      ((List.mem_insertionSort _).mpr hb) hne with ⟨-, hab⟩ | ⟨hba, -⟩
    · exact hab hunits
    · exact hba hletters
  · intro h
    have hperm := (List.perm_insertionSort keyBefore xs).trans
      (List.perm_insertionSort unitsBefore xs).symm
    have hsorted : (xs.insertionSort unitsBefore).Pairwise keyBefore :=
      (unitsBefore_total xs).imp_of_mem fun ha hb hab =>
        keyBefore_of_unitsBefore h ((List.mem_insertionSort _).mp ha)
          ((List.mem_insertionSort _).mp hb) hab
    refine hperm.eq_of_pairwise ?_ (keyBefore_total xs) hsorted
    intro a b ha hb hab hba
    exact List.inj_on_of_nodup_map hnodup ((List.mem_insertionSort _).mp ha)
      ((List.mem_insertionSort _).mp hb) (String.le_antisymm hab hba)

/-- Members with the same keys in the same places are equal when they are so in another order. -/
theorem eq_of_perm {xs ys : List (String × JsonValue)} (hperm : xs.Perm ys)
    (hkeys : xs.map Prod.fst = ys.map Prod.fst) (hnodup : (ys.map Prod.fst).Nodup) : xs = ys := by
  have hdict : (⟨xs, hkeys ▸ hnodup⟩ : Dict String JsonValue) = ⟨ys, hnodup⟩ :=
    Dict.ext_of_keys hkeys fun key => lookup_perm hperm hnodup key
  exact congrArg Dict.entries hdict

mutual

theorem sorted_eq_arranged_iff (v : JsonValue) (h : v.Distinct) :
    sorted v = arranged v ↔ ¬ Crosses v := by
  match v with
  | .null | .bool _ | .int _ | .float _ | .str _ => exact iff_of_true rfl id
  | .arr items =>
    rw [sorted, arranged, JsonValue.arr.injEq]
    exact sortedItems_eq_iff items h
  | .obj members =>
    have hmembers := sortedMembers_eq_iff members h.2
    have hnodup : ((sortedMembers members).map Prod.fst).Nodup := by
      rw [keys_sortedMembers]
      exact h.1
    have hnodup' : ((arrangedMembers members).map Prod.fst).Nodup := by
      rw [keys_arrangedMembers]
      exact h.1
    have hcross : CrossedKeys (sortedMembers members) ↔ CrossedKeys members :=
      crossedKeys_iff (keys_sortedMembers members)
    rw [sorted, arranged, JsonValue.obj.injEq, Crosses, not_or, ← hmembers, ← hcross]
    constructor
    · intro heq
      have hperm : (sortedMembers members).Perm (arrangedMembers members) :=
        ((List.perm_insertionSort keyBefore _).symm.trans (heq ▸ List.Perm.refl _)).trans
          (List.perm_insertionSort unitsBefore _)
      have hvalues := eq_of_perm hperm
        ((keys_sortedMembers members).trans (keys_arrangedMembers members).symm) hnodup'
      rw [← hvalues] at heq
      exact ⟨(sort_eq_iff hnodup).mp heq, hvalues⟩
    · rintro ⟨hkeys, hvalues⟩
      rw [← hvalues]
      exact (sort_eq_iff hnodup).mpr hkeys

theorem sortedItems_eq_iff (items : List JsonValue) (h : DistinctItems items) :
    sortedItems items = arrangedItems items ↔ ¬ CrossesItems items := by
  match items with
  | [] => exact iff_of_true rfl id
  | item :: items =>
    rw [sortedItems, arrangedItems, List.cons.injEq, sorted_eq_arranged_iff item h.1,
      sortedItems_eq_iff items h.2, CrossesItems, not_or]

theorem sortedMembers_eq_iff (members : List (String × JsonValue)) (h : DistinctMembers members) :
    sortedMembers members = arrangedMembers members ↔ ¬ CrossesMembers members := by
  match members with
  | [] => exact iff_of_true rfl id
  | (key, value) :: members =>
    rw [sortedMembers, arrangedMembers, List.cons.injEq, Prod.mk.injEq,
      sorted_eq_arranged_iff value h.1, sortedMembers_eq_iff members h.2, CrossesMembers, not_or]
    simp

end

/-! ## Where the form is canonical -/

theorem write_injective {v w : JsonValue} (h : write v = write w) : v = w := by
  rw [write_eq, write_eq] at h
  exact (splits_write v).inj (fun c hc => by cases hc) h

theorem canonicalize_eq_iff {v : JsonValue} (hdistinct : v.Distinct) (hexact : Exact v) :
    canonicalize v = canonicalForm v ↔ ¬ Crosses v := by
  unfold canonicalize canonicalForm
  rw [← write_eq_text _ (exact_arranged v hexact), ← sorted_eq_arranged_iff v hdistinct]
  exact ⟨fun h => write_injective (encodeUtf8_injective h), fun h => by rw [h]⟩

/-- The first letter above the surrogates, and the first that is written in surrogates. -/
def rareKeys : AgentState :=
  ⟨[("\uE000", .int 1), (String.ofList [Char.ofNat 0x10000], .int 2)], by decide, trivial, trivial,
    trivial⟩

/-- Rare keys are sorted by their code points, and so the first of them stands first. -/
theorem rare_keys_are_in_the_other_order :
    Exact (.obj rareKeys.members) ∧
      jcsCanonicalize rareKeys ≠ canonicalForm (.obj rareKeys.members) := by
  have hexact : Exact (.obj rareKeys.members) :=
    ⟨show (1 : Int).natAbs < 2 ^ 53 by decide, show (2 : Int).natAbs < 2 ^ 53 by decide, trivial⟩
  refine ⟨hexact, fun h => ?_⟩
  refine (canonicalize_eq_iff rareKeys.distinct hexact).mp h (.inl ?_)
  exact ⟨_, List.mem_cons_self, _, List.mem_cons_of_mem _ List.mem_cons_self, [], Char.ofNat 0xE000,
    Char.ofNat 0x10000, [], [], by decide, by decide, by decide, by decide, by decide⟩

/-- A value of whole numbers, texts, lists and dicts gets its canonical form, whatever the order in
which its keys were inserted, if and only if no dict in it has two keys that cross. -/
theorem canonical_json_is_canonical_iff {v : JsonValue} (hdistinct : v.Distinct)
    (hexact : Exact v) :
    (∀ w : JsonValue, w.Distinct → Same v w → canonicalize w = canonicalForm v) ↔
      ¬ Crosses v := by
  rw [← canonicalize_eq_iff hdistinct hexact]
  constructor
  · intro h
    exact h v hdistinct (same_of_sorted v hdistinct hdistinct rfl)
  · intro h w hw hsame
    rw [← h]
    unfold canonicalize
    rw [sorted_of_same v hdistinct hw hsame]

theorem plain_keys_are_canonical :
    canonicalize (.obj reordered.members) = canonicalForm (.obj account.members) := by
  have hexact : Exact (.obj account.members) :=
    ⟨trivial, show (1 : Int).natAbs < 2 ^ 53 by decide, trivial⟩
  have hplain : ¬ Crosses (.obj account.members) := by
    rintro (⟨a, ha, b, hb, p, c, d, s, t, hl, -, hc, hhigh, -⟩ | h)
    · have hall : (account.members.all fun m =>
          m.1.toList.all fun c => c.toNat < 0xE000) = true := by decide
      have hlow : ∀ m ∈ account.members, ∀ c ∈ m.1.toList, c.toNat < 0xE000 := by
        simp only [List.all_eq_true, decide_eq_true_eq] at hall
        exact hall
      have hin := hlow a ha c (by rw [hl]; exact List.mem_append_right _ List.mem_cons_self)
      omega
    · rcases h with h | h | h <;> exact h
  refine (canonical_json_is_canonical_iff account.distinct hexact).mpr hplain _
    reordered.distinct ?_
  exact same_of_sorted _ account.distinct reordered.distinct rfl

end orchestra.canonical
