-- The JSON in the answers of a model: what `strip_json_fences` (`agents/base.py`) makes of a text
-- that has it in one fenced block, with or without prose around it.
import Mathlib.Data.List.DropRight
import Orchestra.Tprm.Answers

open texts orchestra.tprm.answers

namespace orchestra.tprm.fences

/-! ## Blocks -/

/-- The text of an array or an object: brackets with what they enclose, and blanks around them. -/
structure Payload where
  left : List Char
  core : List Char
  right : List Char
  left_blank : ∀ c ∈ left, isSpace c = true
  right_blank : ∀ c ∈ right, isSpace c = true
  opens : ∃ c, core.head? = some c ∧ (c = '[' ∨ c = '\x7b')
  closes : ∃ c, core.getLast? = some c ∧ (c = ']' ∨ c = '\x7d')
  no_fence : ¬ fence <:+: core

def Payload.text (j : Payload) : List Char := j.left ++ j.core ++ j.right

/-- An answer with one fenced block: prose, the fence with its tag, the JSON on lines of its own or
on the line of the fence, the closing fence, and prose. -/
structure Block where
  before : List Char
  tag : List Char
  ownLines : Bool
  json : Payload
  after : List Char
  before_plain : '`' ∉ before
  tag_plain : '`' ∉ tag
  tag_solid : ∀ c ∈ tag, isSpace c = false
  one_line : ownLines = false → '\n' ∉ json.text
  after_plain : '`' ∉ after

namespace Block

/-- What ends a line, where the JSON has lines of its own. -/
def newline (b : Block) : List Char := if b.ownLines then ['\n'] else []

def inner (b : Block) : List Char := b.tag ++ b.newline ++ b.json.text ++ b.newline

def text (b : Block) : List Char := b.before ++ (fence ++ b.inner ++ fence) ++ b.after

/-- Where the fence is found in prose, it has no tag or `json`. Where the answer starts with the
fence, and the JSON has its own lines, nothing follows the block, and the JSON has no blanks before
it. On one line nothing follows, and the tag has letters of words only. (Or the prose after it goes
on, from its second line, with the same JSON again.) -/
def Clear (R : Reader) (b : Block) : Prop :=
  if b.before.all isSpace then
    if b.ownLines then rstrip b.after = [] ∧ b.json.left = []
    else
      match cutAt ['\n'] (rstrip b.after) with
      | none => rstrip b.after = [] ∧ ∀ c ∈ b.tag, R.isWord c = true
      | some (_, rest) => rest = b.json.core
  else b.tag = [] ∨ b.tag = "json".toList

end Block

/-- Blanks and opening brackets are no letters of words. -/
structure WordLetters (R : Reader) : Prop where
  blank : ∀ c, isSpace c = true → R.isWord c = false
  bracket : R.isWord '[' = false
  brace : R.isWord '\x7b' = false

/-! ## Blanks -/

theorem rstrip_append {l m : List Char} {b : Char} (hlast : l.getLast? = some b)
    (hb : isSpace b = false) (hm : ∀ c ∈ m, isSpace c = true) : rstrip (l ++ m) = l := by
  have hback : l.reverse.head? = some b := by rw [List.head?_reverse, hlast]
  unfold rstrip
  rw [List.reverse_append, dropWhile_append_stop hback hb,
    List.dropWhile_eq_nil_iff.mpr fun c hc => hm c (List.mem_reverse.mp hc)]
  simp

theorem rstrip_self {l : List Char} {b : Char} (hlast : l.getLast? = some b)
    (hb : isSpace b = false) : rstrip l = l := by
  have h := rstrip_append hlast hb (m := []) nofun
  rwa [List.append_nil] at h

theorem rstrip_starts (l : List Char) : rstrip l <+: l := by
  unfold rstrip
  rw [← List.reverse_suffix, List.reverse_reverse]
  exact List.dropWhile_suffix _

/-- What is left has its last letter at the end. -/
theorem rstrip_cases (l : List Char) :
    rstrip l = [] ∨ ∃ b, (rstrip l).getLast? = some b ∧ isSpace b = false := by
  unfold rstrip
  rw [List.getLast?_reverse]
  cases h : l.reverse.dropWhile isSpace with
  | nil => exact .inl rfl
  | cons b rest =>
    refine .inr ⟨b, rfl, ?_⟩
    have hhead := List.head?_dropWhile_not isSpace l.reverse
    rw [h] at hhead
    simpa using hhead

theorem solid_blank {l : List Char} (h : ∀ c ∈ l, isSpace c = true) : solid l = 0 :=
  List.countP_eq_zero.mpr fun c hc => by simp [h c hc]

theorem solid_pos {l : List Char} {c : Char} (hc : c ∈ l) (hspace : isSpace c = false) :
    0 < solid l :=
  List.countP_pos_iff.mpr ⟨c, hc, by simp [hspace]⟩

/-- A text with more letters is another one, however it is stripped. -/
theorem strip_ne_of_solid {l m : List Char} (h : solid m < solid l) :
    (strip (String.ofList l)).toList ≠ m := by
  intro heq
  have hsolid := solid_strip (String.ofList l)
  rw [heq, String.toList_ofList] at hsolid
  omega

theorem ne_of_solid {l m : List Char} (h : solid m < solid l) : l ≠ m := by
  rintro rfl
  exact Nat.lt_irrefl _ h

namespace Payload

variable (j : Payload)

theorem first : ∃ c, j.core.head? = some c ∧ isSpace c = false := by
  obtain ⟨c, hc, rfl | rfl⟩ := j.opens
  · exact ⟨_, hc, rfl⟩
  · exact ⟨_, hc, rfl⟩

theorem last : ∃ c, j.core.getLast? = some c ∧ isSpace c = false ∧ c ∉ fence := by
  obtain ⟨c, hc, rfl | rfl⟩ := j.closes
  · exact ⟨_, hc, rfl, by decide⟩
  · exact ⟨_, hc, rfl, by decide⟩

theorem solid_text : solid j.text = solid j.core := by
  rw [text, solid_append, solid_append, solid_blank j.left_blank, solid_blank j.right_blank]
  omega

/-- The JSON trimmed, with more blanks around it too. -/
theorem strip_text {l r : List Char} (hl : ∀ c ∈ l, isSpace c = true)
    (hr : ∀ c ∈ r, isSpace c = true) :
    (strip (String.ofList (l ++ j.text ++ r))).toList = j.core := by
  obtain ⟨a, ha, haspace⟩ := j.first
  obtain ⟨b, hb, hbspace, -⟩ := j.last
  have hparts : l ++ j.text ++ r = (l ++ j.left) ++ j.core ++ (j.right ++ r) := by
    simp [text]
  rw [hparts, strip_around ha haspace hb hbspace,
    List.dropWhile_eq_nil_iff.mpr, List.dropWhile_eq_nil_iff.mpr]
  · simp
  · intro c hc
    rcases List.mem_append.mp (List.mem_reverse.mp hc) with h | h
    · exact j.right_blank c h
    · exact hr c h
  · intro c hc
    rcases List.mem_append.mp hc with h | h
    · exact hl c h
    · exact j.left_blank c h

theorem strip_self : (strip (String.ofList j.text)).toList = j.core := by
  have h := j.strip_text (l := []) (r := []) nofun nofun
  simpa using h

/-- The JSON begins with a blank or a bracket. -/
theorem head_text : ∃ c, j.text.head? = some c ∧
    (isSpace c = true ∨ c = '[' ∨ c = '\x7b') := by
  unfold text
  cases hleft : j.left with
  | nil =>
    obtain ⟨c, hc, hbracket⟩ := j.opens
    refine ⟨c, ?_, .inr hbracket⟩
    rw [List.nil_append, List.head?_append, hc]
    rfl
  | cons c left => exact ⟨c, rfl, .inl (j.left_blank c (by simp [hleft]))⟩

/-- It ends with a blank or a bracket. -/
theorem last_text : ∃ c, j.text.getLast? = some c ∧ c ∉ fence := by
  unfold text
  rcases List.eq_nil_or_concat' j.right with hright | ⟨right, c, hright⟩
  · obtain ⟨c, hc, -, hplain⟩ := j.last
    refine ⟨c, ?_, hplain⟩
    rw [hright, List.append_nil, List.getLast?_append, hc]
    rfl
  · refine ⟨c, ?_, ?_⟩
    · rw [hright, ← List.append_assoc, List.getLast?_concat]
    · have hblank := j.right_blank c (by simp [hright])
      intro hc
      have hbacktick : c = '`' := by simpa [fence] using hc
      rw [hbacktick] at hblank
      cases hblank

end Payload

namespace Block

variable (b : Block)

theorem newline_blank : ∀ c ∈ b.newline, isSpace c = true := by
  unfold newline
  split
  · intro c hc
    rw [List.mem_singleton.mp hc]
    rfl
  · exact nofun

/-- The answer without the blanks around it. -/
theorem strip_text : (strip (String.ofList b.text)).toList =
    b.before.dropWhile isSpace ++ (fence ++ b.inner ++ fence) ++ rstrip b.after := by
  have hlast : (fence ++ b.inner ++ fence).getLast? = some '`' := by
    rw [List.getLast?_append]
    rfl
  exact strip_around rfl rfl hlast rfl

theorem plain_rstrip : '`' ∉ rstrip b.after := fun h =>
  b.after_plain ((rstrip_starts b.after).subset h)

/-- What follows the block ends with a letter that is no backtick. -/
theorem after_cases : rstrip b.after = [] ∨
    ∃ c, (rstrip b.after).getLast? = some c ∧ isSpace c = false ∧ c ≠ '`' := by
  rcases rstrip_cases b.after with h | ⟨c, hlast, hspace⟩
  · exact .inl h
  · refine .inr ⟨c, hlast, hspace, ?_⟩
    rintro rfl
    exact b.plain_rstrip (List.mem_of_getLast? hlast)

/-! ## A fence at the start -/

theorem starts_with_fence (h : ∀ c ∈ b.before, isSpace c = true) :
    (strip (String.ofList b.text)).toList = fence ++ (b.inner ++ (fence ++ rstrip b.after)) := by
  rw [strip_text, List.dropWhile_eq_nil_iff.mpr h]
  simp

/-- On its own lines the JSON is recovered from its first letter on, if nothing follows. -/
theorem strip_ownLines (R : Reader) (hbefore : ∀ c ∈ b.before, isSpace c = true)
    (hlines : b.ownLines = true) :
    (stripJsonFences R (String.ofList b.text)).toList = b.json.core ↔
      rstrip b.after = [] ∧ b.json.left = [] := by
  have hnewline : b.newline = ['\n'] := by rw [newline, if_pos hlines]
  have htag : '\n' ∉ fence ++ b.tag := by
    rw [List.mem_append, not_or]
    exact ⟨by decide, fun h => absurd (b.tag_solid _ h) (by decide)⟩
  have hcut : cutAt ['\n'] (fence ++ (b.inner ++ (fence ++ rstrip b.after))) =
      some (fence ++ b.tag, b.json.text ++ ['\n'] ++ fence ++ rstrip b.after) := by
    rw [cutAt_eq_some_iff]
    have h := firstCut_of_notMem (m := []) (r := b.json.text ++ ['\n'] ++ fence ++ rstrip b.after)
      htag
    simpa [inner, hnewline] using h
  have hstart : fence.isPrefixOf (fence ++ (b.inner ++ (fence ++ rstrip b.after))) = true :=
    List.isPrefixOf_iff_prefix.mpr (List.prefix_append _ _)
  unfold stripJsonFences
  rw [starts_with_fence b hbefore]
  dsimp only
  rw [if_pos hstart, hcut]
  dsimp only
  rcases b.after_cases with hnone | ⟨c, hlast, hspace, hplain⟩
  · have hrest : rstrip (b.json.text ++ ['\n'] ++ fence ++ rstrip b.after) =
        b.json.text ++ ['\n'] ++ fence := by
      rw [hnone, List.append_nil]
      exact rstrip_self (b := '`') (by rw [List.getLast?_append]; rfl) rfl
    have htake : (b.json.text ++ ['\n'] ++ fence).take
        ((b.json.text ++ ['\n'] ++ fence).length - 3) = b.json.text ++ ['\n'] :=
      List.take_left' (by simp [fence])
    obtain ⟨e, he, hespace, -⟩ := b.json.last
    have hjson : rstrip (b.json.text ++ ['\n']) = b.json.left ++ b.json.core := by
      rw [Payload.text, List.append_assoc]
      refine rstrip_append (b := e) ?_ hespace fun c hc => ?_
      · rw [List.getLast?_append, he]
        rfl
      · rcases List.mem_append.mp hc with h | h
        · exact b.json.right_blank c h
        · rw [List.mem_singleton.mp h]
          rfl
    rw [hrest, if_pos (List.isSuffixOf_iff_suffix.mpr (List.suffix_append _ _)), htake, hjson,
      String.toList_ofList, hnone]
    simp
  · have hends : (b.json.text ++ ['\n'] ++ fence ++ rstrip b.after).getLast? = some c := by
      rw [List.getLast?_append, hlast]
      rfl
    have hother : ¬ fence.isSuffixOf (b.json.text ++ ['\n'] ++ fence ++ rstrip b.after) = true := by
      rw [List.isSuffixOf_iff_suffix]
      rintro ⟨m, hm⟩
      rw [← hm, List.getLast?_append] at hends
      exact hplain (Option.some.inj hends).symm
    rw [rstrip_self hends hspace, if_neg hother, String.toList_ofList]
    refine iff_of_false (ne_of_solid ?_) ?_
    · simp only [solid_append, Payload.solid_text]
      have hfence : solid fence = 3 := rfl
      omega
    · rintro ⟨hnone, -⟩
      rw [hnone] at hlast
      cases hlast

/-- Letters without a line feed stand before the first one. -/
theorem cutAt_newline {m : List Char} (hm : '\n' ∉ m) (l : List Char) :
    cutAt ['\n'] (m ++ l) = (cutAt ['\n'] l).map fun parts => (m ++ parts.1, parts.2) := by
  refine cutAt_append l fun t ht hne hpre => ?_
  obtain ⟨c, t, rfl⟩ := List.exists_cons_of_ne_nil hne
  obtain ⟨rest, hrest⟩ := hpre
  obtain ⟨rfl, -⟩ := List.cons.inj hrest
  exact hm (ht.subset List.mem_cons_self)

/-- `s.rstrip("`")` takes the backticks at the end, and no others. -/
theorem without_ticks {l : List Char} {c : Char} (hlast : l.getLast? = some c) (hc : c ≠ '`')
    (ticks : List Char) (hticks : ∀ d ∈ ticks, d = '`') :
    ((l ++ ticks).reverse.dropWhile (· = '`')).reverse = l := by
  have hback : l.reverse.head? = some c := by rw [List.head?_reverse, hlast]
  obtain ⟨rest, hrest⟩ := List.head?_eq_some_iff.mp hback
  rw [List.reverse_append, List.dropWhile_append_of_pos fun d hd => by
    simp [hticks d (List.mem_reverse.mp hd)], hrest, List.dropWhile_cons_of_neg (by simp [hc]),
    ← hrest, List.reverse_reverse]

/-- The letters of the tag that are left over after the letters of words at its start. -/
def leftover (R : Reader) (b : Block) : List Char := b.tag.dropWhile R.isWord

theorem leftover_eq_nil {R : Reader} : b.leftover R = [] ↔ ∀ c ∈ b.tag, R.isWord c = true :=
  List.dropWhile_eq_nil_iff

theorem dropWhile_tag {R : Reader} (hR : WordLetters R) (rest : List Char) :
    (b.tag ++ b.json.text ++ rest).dropWhile R.isWord = b.leftover R ++ b.json.text ++ rest := by
  obtain ⟨c, hc, hfirst⟩ := b.json.head_text
  have hword : R.isWord c = false := by
    rcases hfirst with h | rfl | rfl
    · exact hR.blank c h
    · exact hR.bracket
    · exact hR.brace
  obtain ⟨tail, htail⟩ := List.head?_eq_some_iff.mp hc
  have hjson : (b.json.text ++ rest).dropWhile R.isWord = b.json.text ++ rest := by
    rw [htail]
    exact List.dropWhile_cons_of_neg (by simp [hword])
  rw [List.append_assoc, List.dropWhile_append, hjson]
  unfold leftover
  split
  · rename_i h
    rw [List.isEmpty_iff.mp h]
    rfl
  · rw [List.append_assoc]

/-- The tag has no blanks, and so what is left of it stays. -/
theorem solid_leftover (R : Reader) (h : b.leftover R ≠ []) : 0 < solid (b.leftover R) := by
  obtain ⟨c, hc⟩ := List.exists_mem_of_ne_nil _ h
  exact solid_pos hc (b.tag_solid c ((List.dropWhile_suffix _).subset hc))

/-- On one line, with nothing on further lines, the JSON is recovered if nothing follows and the
whole tag is taken for one. -/
theorem strip_line {R : Reader} (hR : WordLetters R) (hbefore : ∀ c ∈ b.before, isSpace c = true)
    (hline : b.ownLines = false) :
    (stripJsonFences R (String.ofList b.text)).toList = b.json.core ↔
      match cutAt ['\n'] (rstrip b.after) with
      | none => rstrip b.after = [] ∧ ∀ c ∈ b.tag, R.isWord c = true
      | some (_, rest) => rest = b.json.core := by
  have hinner : b.inner = b.tag ++ b.json.text := by simp [inner, newline, hline]
  have hblock : '\n' ∉ fence ++ (b.tag ++ b.json.text ++ fence) := by
    simp only [List.mem_append, not_or]
    exact ⟨by decide, ⟨fun h => absurd (b.tag_solid _ h) (by decide), b.one_line hline⟩, by decide⟩
  have hcut := cutAt_newline hblock (rstrip b.after)
  have hparts : fence ++ (b.inner ++ (fence ++ rstrip b.after)) =
      fence ++ (b.tag ++ b.json.text ++ fence) ++ rstrip b.after := by simp [hinner]
  have hstart : fence.isPrefixOf (fence ++ (b.tag ++ b.json.text ++ fence) ++ rstrip b.after) =
      true := by
    rw [List.isPrefixOf_iff_prefix, List.append_assoc]
    exact List.prefix_append _ _
  have hdrop : (fence ++ (b.tag ++ b.json.text ++ fence) ++ rstrip b.after).drop 3 =
      b.tag ++ b.json.text ++ (fence ++ rstrip b.after) := by
    rw [List.append_assoc, List.append_assoc (b.tag ++ b.json.text)]
    rfl
  unfold stripJsonFences
  rw [starts_with_fence b hbefore, hparts]
  dsimp only
  rw [if_pos hstart, hcut]
  cases hafter : cutAt ['\n'] (rstrip b.after) with
  | none =>
    dsimp only [Option.map_none]
    rw [hdrop, dropWhile_tag b hR]
    rcases b.after_cases with hnone | ⟨c, hlast, hspace, hplain⟩
    · obtain ⟨e, he, heplain⟩ := b.json.last_text
      have hends : (b.leftover R ++ b.json.text).getLast? = some e := by
        rw [List.getLast?_append, he]
        rfl
      rw [hnone, List.append_nil, without_ticks hends (List.ne_of_not_mem_cons heplain) fence
        (by simp [fence]), ← leftover_eq_nil]
      constructor
      · intro h
        refine ⟨rfl, not_not.mp fun hleft => strip_ne_of_solid ?_ h⟩
        have hpos := solid_leftover b R hleft
        rw [solid_append, Payload.solid_text]
        omega
      · rintro ⟨-, hleft⟩
        rw [hleft, List.nil_append, Payload.strip_self]
    · have hends : (b.leftover R ++ b.json.text ++ (fence ++ rstrip b.after)).getLast? =
          some c := by
        rw [List.getLast?_append, List.getLast?_append, hlast]
        rfl
      have hsame := without_ticks hends hplain [] (by simp)
      rw [List.append_nil] at hsame
      rw [hsame]
      refine iff_of_false (strip_ne_of_solid ?_) ?_
      · simp only [solid_append, Payload.solid_text]
        have hfence : solid fence = 3 := rfl
        omega
      · rintro ⟨hnone, -⟩
        rw [hnone] at hlast
        cases hlast
  | some parts =>
    dsimp only [Option.map_some]
    have hsuffix : parts.2 <:+ rstrip b.after :=
      ⟨parts.1 ++ ['\n'], (cutAt_eq_some_iff.mp hafter).parts.symm⟩
    have hother : ¬ fence.isSuffixOf (rstrip parts.2) = true := by
      rw [List.isSuffixOf_iff_suffix]
      intro h
      exact b.plain_rstrip (hsuffix.subset ((rstrip_starts _).subset (h.subset List.mem_cons_self)))
    rw [if_neg hother, String.toList_ofList]

/-! ## A fence in prose -/

/-- A word whose letters are neither blanks nor brackets is at the start of a block only if it is at
the start of its tag. -/
theorem prefix_tag {w : List Char} (hw : ∀ c ∈ w, isSpace c = false ∧ c ≠ '[' ∧ c ≠ '\x7b')
    (rest : List Char) (h : w <+: b.inner ++ rest) : w <+: b.tag := by
  obtain ⟨c, tail, htail, hc⟩ : ∃ c tail, b.newline ++ (b.json.text ++ (b.newline ++ rest)) =
      c :: tail ∧ (isSpace c = true ∨ c = '[' ∨ c = '\x7b') := by
    cases hnewline : b.newline with
    | nil =>
      obtain ⟨c, hc, hfirst⟩ := b.json.head_text
      obtain ⟨tail, htail⟩ := List.head?_eq_some_iff.mp hc
      exact ⟨c, tail ++ rest, by rw [htail]; rfl, hfirst⟩
    | cons c newline =>
      exact ⟨c, _, rfl, .inl (b.newline_blank c (by simp [hnewline]))⟩
  have hinner : b.inner ++ rest = b.tag ++ c :: tail := by
    rw [← htail]
    simp [inner]
  rw [hinner] at h
  rcases List.prefix_or_prefix_of_prefix h (List.prefix_append b.tag (c :: tail)) with hpre | hpre
  · exact hpre
  · obtain ⟨more, rfl⟩ := hpre
    rw [List.prefix_append_right_inj] at h
    cases more with
    | nil => rw [List.append_nil]
    | cons d more =>
      obtain ⟨rfl, -⟩ := List.cons_prefix_cons.mp h
      obtain ⟨hspace, hbracket, hbrace⟩ := hw d (by simp)
      rcases hc with hblank | rfl | rfl
      · rw [hblank] at hspace
        cases hspace
      · exact absurd rfl hbracket
      · exact absurd rfl hbrace

/-- What the pattern leaves of the tag. -/
def untagged (b : Block) : List Char :=
  if "json".toList.isPrefixOf b.tag then b.tag.drop 4 else b.tag

theorem untagged_subset : b.untagged ⊆ b.tag := by
  unfold untagged
  split
  · exact (List.drop_suffix ..).subset
  · exact List.Subset.refl _

theorem untagged_eq_nil : b.untagged = [] ↔ b.tag = [] ∨ b.tag = "json".toList := by
  unfold untagged
  split
  · rename_i h
    obtain ⟨more, hmore⟩ := List.isPrefixOf_iff_prefix.mp h
    rw [← hmore]
    cases more <;> simp
  · rename_i h
    refine ⟨.inl, ?_⟩
    rintro (htag | htag)
    · exact htag
    · rw [htag] at h
      exact absurd (by decide) h

/-- What the pattern takes from the block, before it leaves out blanks. -/
def taken (b : Block) : List Char := b.untagged ++ b.newline ++ b.json.text ++ b.newline

theorem json_plain : ∀ c ∈ "json".toList, isSpace c = false ∧ c ≠ '[' ∧ c ≠ '\x7b' := by
  have hall : "json".toList.all (fun c => !isSpace c && c != '[' && c != '\x7b') = true := by
    decide
  rw [List.all_eq_true] at hall
  simpa [and_assoc] using hall

theorem drop_json (rest : List Char) :
    (if "json".toList.isPrefixOf (b.inner ++ rest) then (b.inner ++ rest).drop 4
      else b.inner ++ rest) = b.taken ++ rest := by
  unfold taken untagged
  by_cases htag : "json".toList <+: b.tag
  · have hinner : "json".toList <+: b.inner ++ rest := by
      unfold inner
      simp only [List.append_assoc]
      exact htag.trans (List.prefix_append _ _)
    rw [if_pos (List.isPrefixOf_iff_prefix.mpr hinner),
      if_pos (List.isPrefixOf_iff_prefix.mpr htag)]
    obtain ⟨more, hmore⟩ := htag
    rw [inner, ← hmore]
    simp
  · have hinner : ¬ "json".toList <+: b.inner ++ rest := fun h =>
      htag (prefix_tag b json_plain rest h)
    rw [if_neg (mt List.isPrefixOf_iff_prefix.mp hinner),
      if_neg (mt List.isPrefixOf_iff_prefix.mp htag)]
    rfl

theorem no_fence_taken : ¬ fence <:+: b.taken := by
  rintro ⟨x, y, hxy⟩
  obtain ⟨e, he, -, heplain⟩ := b.json.last
  have hblank : ∀ l : List Char, (∀ c ∈ l, isSpace c = true) → '`' ∉ l := fun l h hc =>
    absurd (h _ hc) (by decide)
  have hleft : '`' ∉ b.untagged ++ b.newline ++ b.json.left := by
    simp only [List.mem_append, not_or]
    exact ⟨⟨fun h => b.tag_plain (b.untagged_subset h), hblank _ b.newline_blank⟩,
      hblank _ b.json.left_blank⟩
  have hright : '`' ∉ b.json.right ++ b.newline := by
    simp only [List.mem_append, not_or]
    exact ⟨hblank _ b.json.right_blank, hblank _ b.newline_blank⟩
  have hparts : x ++ '`' :: ['`', '`'] ++ y =
      (b.untagged ++ b.newline ++ b.json.left) ++ b.json.core ++ (b.json.right ++ b.newline) := by
    refine hxy.trans ?_
    simp [taken, Payload.text]
  obtain ⟨p, q, -, -, hcore⟩ := parts_within hleft hright he heplain hparts
  exact b.json.no_fence ⟨p, q, hcore.symm⟩

theorem last_taken : ∃ c, b.taken.getLast? = some c ∧ c ≠ '`' := by
  unfold taken
  rcases List.eq_nil_or_concat' b.newline with hnewline | ⟨before, c, hnewline⟩
  · obtain ⟨e, he, heplain⟩ := b.json.last_text
    refine ⟨e, ?_, List.ne_of_not_mem_cons heplain⟩
    rw [hnewline, List.append_nil, List.getLast?_append, he]
    rfl
  · refine ⟨c, ?_, ?_⟩
    · rw [List.getLast?_append, hnewline, List.getLast?_concat]
      rfl
    · rintro rfl
      exact absurd (b.newline_blank '`' (by simp [hnewline])) (by decide)

/-- The closing fence is the first one after what the pattern takes. -/
theorem cutAt_taken (rest : List Char) :
    cutAt fence ((b.taken ++ (fence ++ rest)).dropWhile isSpace) =
      some (b.taken.dropWhile isSpace, rest) := by
  have hdrop : (b.taken ++ (fence ++ rest)).dropWhile isSpace =
      b.taken.dropWhile isSpace ++ (fence ++ rest) := dropWhile_append_stop rfl rfl
  have hfence : cutAt fence (fence ++ rest) = some ([], rest) := rfl
  obtain ⟨e, he, heplain⟩ := b.last_taken
  rw [hdrop, cutAt_append, hfence]
  · simp
  · -- A fence that starts within what is taken would be in it, or its last letter a backtick.
    intro t ht hne hpre
    have hsuffix := ht.trans (List.dropWhile_suffix isSpace)
    rcases List.prefix_or_prefix_of_prefix hpre (List.prefix_append t (fence ++ rest)) with h | h
    · exact b.no_fence_taken (h.isInfix.trans hsuffix.isInfix)
    · obtain ⟨m, hm⟩ := hsuffix
      rw [← hm, List.getLast?_append_of_ne_nil _ hne] at he
      have hmem := h.subset (List.mem_of_getLast? he)
      exact heplain (by simpa [fence] using hmem)

theorem strip_taken :
    (strip (String.ofList (b.taken.dropWhile isSpace))).toList = b.json.core ↔
      b.untagged = [] := by
  have hsame : (strip (String.ofList (b.taken.dropWhile isSpace))).toList =
      (strip (String.ofList b.taken)).toList := by
    rw [toList_strip, toList_strip, String.toList_ofList, String.toList_ofList,
      List.dropWhile_idempotent]
  rw [hsame]
  constructor
  · intro h
    refine not_not.mp fun hleft => strip_ne_of_solid ?_ h
    obtain ⟨c, hc⟩ := List.exists_mem_of_ne_nil _ hleft
    have hpos := solid_pos hc (b.tag_solid c (b.untagged_subset hc))
    simp only [taken, solid_append, Payload.solid_text]
    omega
  · intro h
    rw [taken, h, List.nil_append]
    exact b.json.strip_text b.newline_blank b.newline_blank

/-- In prose the JSON is recovered if the tag is none or `json`. -/
theorem strip_prose (R : Reader) (hbefore : ¬ ∀ c ∈ b.before, isSpace c = true) :
    (stripJsonFences R (String.ofList b.text)).toList = b.json.core ↔
      b.tag = [] ∨ b.tag = "json".toList := by
  have hplain : '`' ∉ b.before.dropWhile isSpace := fun h =>
    b.before_plain ((List.dropWhile_suffix isSpace).subset h)
  have hcut : cutAt fence (b.before.dropWhile isSpace ++ (fence ++ b.inner ++ fence) ++
      rstrip b.after) =
        some (b.before.dropWhile isSpace, b.inner ++ (fence ++ rstrip b.after)) := by
    rw [cutAt_eq_some_iff]
    have h := firstCut_of_notMem (m := ['`', '`'])
      (r := b.inner ++ (fence ++ rstrip b.after)) hplain
    simpa [fence] using h
  have hstart : ¬ fence.isPrefixOf (b.before.dropWhile isSpace ++ (fence ++ b.inner ++ fence) ++
      rstrip b.after) = true := by
    obtain ⟨c, rest, hrest⟩ := List.exists_cons_of_ne_nil fun hnone =>
      hbefore (List.dropWhile_eq_nil_iff.mp hnone)
    rw [List.isPrefixOf_iff_prefix, hrest]
    intro h
    obtain ⟨rfl, -⟩ := List.cons_prefix_cons.mp h
    exact hplain (by simp [hrest])
  unfold stripJsonFences
  rw [strip_text]
  dsimp only
  rw [if_neg hstart, hcut]
  dsimp only
  rw [drop_json, cutAt_taken]
  exact (strip_taken b).trans b.untagged_eq_nil

end Block

/-! ## All answers -/

/-- JSON without a fence is given back trimmed. -/
theorem strip_unfenced (R : Reader) (j : Payload) :
    stripJsonFences R (String.ofList j.text) = strip (String.ofList j.text) := by
  have hcore := j.strip_self
  have hnone : cutAt fence j.core = none := by
    rw [← Option.not_isSome_iff_eq_none, isSome_cutAt_iff]
    exact j.no_fence
  have hstart : ¬ fence.isPrefixOf j.core = true := fun h =>
    j.no_fence (List.isPrefixOf_iff_prefix.mp h).isInfix
  unfold stripJsonFences
  rw [hcore]
  dsimp only
  rw [if_neg hstart, hnone, ← hcore, String.ofList_toList]

/-- The letters of words, of the letters of ASCII. -/
def asciiReader : Reader where
  loads _ := .error (.decode "Expecting value")
  reprStr s := s
  intOfText _ := .error ⟨"ValueError", "invalid literal for int()", false⟩
  isWord c :=
    let n := c.toNat
    48 ≤ n && n ≤ 57 || 65 ≤ n && n ≤ 90 || n = 95 || 97 ≤ n && n ≤ 122
  intOrNone _ := .ok none
  remediationItem _ := none
  dumpFindings _ := .ok "[]"

/-- A list of one number. -/
def one : Payload :=
  ⟨[], "[1]".toList, [], nofun, nofun, ⟨_, rfl, .inl rfl⟩, ⟨_, rfl, .inl rfl⟩, by decide⟩

/-- A block with lines of its own. -/
def listed (after : List Char) (h : '`' ∉ after) : Block :=
  ⟨[], "json".toList, true, one, after, nofun, by decide,
    fun c hc => (Block.json_plain c hc).1, nofun, h⟩

/-- A word after the block, and the closing fence stays with the JSON. -/
theorem a_word_after_the_block_keeps_the_fence :
    stripJsonFences asciiReader (String.ofList (listed "\nDone.".toList (by decide)).text) =
      "[1]\n```\nDone." ∧ strip (String.ofList one.text) = "[1]" := by
  decide +kernel

/-- The JSON of a fenced block is given back trimmed if and only if the block is clear, and without
a fence it always is. -/
theorem payload_is_recovered_iff {R : Reader} (hR : WordLetters R) (b : Block) :
    stripJsonFences R (String.ofList b.json.text) = strip (String.ofList b.json.text) ∧
      (stripJsonFences R (String.ofList b.text) = strip (String.ofList b.json.text) ↔
        b.Clear R) := by
  refine ⟨strip_unfenced R b.json, ?_⟩
  rw [← String.toList_inj, b.json.strip_self, Block.Clear]
  split
  · rename_i hbefore
    rw [List.all_eq_true] at hbefore
    split
    · rename_i hlines
      exact b.strip_ownLines R hbefore hlines
    · rename_i hline
      exact b.strip_line hR hbefore (by simpa using hline)
  · rename_i hbefore
    rw [List.all_eq_true] at hbefore
    exact b.strip_prose R hbefore

theorem a_block_alone_is_recovered :
    stripJsonFences asciiReader (String.ofList (listed [] nofun).text) =
      strip (String.ofList one.text) := by
  have hwords : WordLetters asciiReader := by
    refine ⟨fun c hc => ?_, rfl, rfl⟩
    simp only [isSpace, Bool.or_eq_true, Bool.and_eq_true, decide_eq_true_eq] at hc
    simp only [asciiReader, Bool.or_eq_false_iff, Bool.and_eq_false_iff, decide_eq_false_iff_not]
    omega
  refine (payload_is_recovered_iff hwords (listed [] nofun)).2.mpr ?_
  exact ⟨rfl, rfl⟩

end orchestra.tprm.fences
