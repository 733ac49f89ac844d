-- The tool calls in the answer of a CLI model (`providers/_cli_common.py`): one function reads
-- the block of calls, another one takes it out of the text.
import Orchestra.Lib.Text
import Orchestra.Values

open texts

namespace orchestra.tool_tags

/-! ## JSON and calls -/

/-- What `json.loads` returns. A float is held by its text. -/
inductive Json
  | null
  | bool (b : Bool)
  | int (i : Int)
  | float (text : String)
  | str (s : String)
  | list (items : List Json)
  | dict (members : List (String × Json))

/-- `type(v).__name__` -/
def Json.typeName : Json → String
  | null => "NoneType"
  | bool _ => "bool"
  | int _ => "int"
  | float _ => "float"
  | str _ => "str"
  | list _ => "list"
  | dict _ => "dict"

/-- What `json.loads` raises: a `JSONDecodeError`, or another error (an integer with too many
digits, brackets too deep). -/
inductive LoadError
  | decode
  | other (error : Raised)

structure ToolCall where
  id : String
  name : String
  arguments : List (String × Json)

/-- What the functions take from Python and from pydantic: `json.loads`, `uuid.uuid4().hex` for
each item, and the `ValidationError` for a name and arguments that a `ToolCall` does not take. -/
structure Reader where
  loads : String → Except LoadError Json
  hex : Nat → String
  refused : Json → Json → Raised

/-! ## The two functions -/

/-- `TOOL_CALL_TAG` -/
def openTag : List Char := ['<', 't', 'o', 'o', 'l', '_', 'c', 'a', 'l', 'l', 's', '>']

/-- `TOOL_CALL_END_TAG` -/
def endTag : List Char := ['<', '/', 't', 'o', 'o', 'l', '_', 'c', 'a', 'l', 'l', 's', '>']

/-- `raw`, as a list. -/
def Json.items : Json → List Json
  | list items => items
  | raw => [raw]

/-- One turn of the loop. A `ToolCall` takes a text for a name and a dict for arguments. -/
def readCall (R : Reader) (id : String) : Json → Except Raised ToolCall
  | .dict members =>
    match (members.lookup "name").getD (.str ""), (members.lookup "arguments").getD (.dict []) with
    | .str name, .dict arguments => .ok ⟨id, name, arguments⟩
    | name, arguments => .error (R.refused name arguments)
  | item =>
    .error ⟨"AttributeError", "'" ++ item.typeName ++ "' object has no attribute 'get'", false⟩

/-- The calls of the items, of which `i` came before. -/
def readCalls (R : Reader) (i : Nat) : List Json → Except Raised (List ToolCall)
  | [] => .ok []
  | item :: items =>
    match readCall R ("call_" ++ cut (R.hex i) 12) item with
    | .error e => .error e
    | .ok call =>
      match readCalls R (i + 1) items with
      | .error e => .error e
      | .ok calls => .ok (call :: calls)

/-- What is read from the letters between the tags. -/
def readBlock (R : Reader) (inside : List Char) : Except Raised (Option (List ToolCall)) :=
  match R.loads (strip (String.ofList inside)) with
  | .error .decode => .ok none
  | .error (.other e) => .error e
  | .ok raw =>
    match readCalls R 0 raw.items with
    | .error e => .error e
    | .ok calls => .ok (if calls.isEmpty then none else some calls)

/-- `text[start:stop]` -/
def slice (letters : List Char) (start stop : Nat) : List Char :=
  (letters.drop start).take (stop - start)

/-- `parse_tool_calls` -/
def parseToolCalls (R : Reader) (text : String) : Except Raised (Option (List ToolCall)) :=
  let letters := text.toList
  match find openTag letters 0 with
  | none => .ok none
  | some start =>
    match find endTag letters start with
    | none => .ok none
    | some stop => readBlock R (slice letters (start + openTag.length) stop)

/-- `content.strip() or None` -/
def trimmed (letters : List Char) : Option String :=
  let content := strip (String.ofList letters)
  if content = "" then none else some content

/-- `strip_tool_calls`. The search for the end does not begin at the start. -/
def stripToolCalls (text : String) : Option String :=
  let letters := text.toList
  match find openTag letters 0, find endTag letters 0 with
  | some start, some stop => trimmed (letters.take start ++ letters.drop (stop + endTag.length))
  | _, _ => some text

/-! ## The block -/

/-- The text has its first opening tag after `before`, and the next closing tag after `inside`. -/
structure Block (letters before inside after : List Char) : Prop where
  opened : FirstCut openTag letters before (inside ++ endTag ++ after)
  closed : FirstCut endTag (inside ++ endTag ++ after) inside after

theorem Block.parts {letters before inside after : List Char}
    (h : Block letters before inside after) :
    letters = before ++ openTag ++ (inside ++ endTag ++ after) := h.opened.parts

/-- No closing tag begins inside of an opening one. -/
theorem cutAt_openTag (l : List Char) :
    cutAt endTag (openTag ++ l) =
      (cutAt endTag l).map fun parts => (openTag ++ parts.1, parts.2) := by
  refine cutAt_append l fun t ht hne hp => ?_
  have hstart : ∀ t ∈ openTag.tails, t ≠ [] → t.head? ≠ some '<' ∨ t = openTag := by decide
  rcases hstart t ((List.mem_tails t openTag).mpr ht) hne with hhead | rfl
  · cases t with
    | nil => exact hne rfl
    | cons c t =>
      obtain ⟨hc, -⟩ := List.cons_prefix_cons.mp hp
      exact hhead (by rw [List.head?_cons, ← hc])
  · obtain ⟨-, hp⟩ := List.cons_prefix_cons.mp hp
    exact absurd (List.cons_prefix_cons.mp hp).1 (by decide)

/-- A closing tag that begins before an opening tag ends before it. -/
theorem cutAt_before {before : List Char} (h : ¬ endTag <:+: before) (l : List Char) :
    cutAt endTag (before ++ (openTag ++ l)) =
      (cutAt endTag (openTag ++ l)).map fun parts => (before ++ parts.1, parts.2) := by
  refine cutAt_append (openTag ++ l) fun t ht hne ⟨r, hr⟩ => ?_
  rcases List.append_eq_append_iff.mp hr with ⟨u, hu, -⟩ | ⟨u, hu, hrest⟩
  · exact h (List.IsInfix.trans ⟨[], u, by rw [List.nil_append, hu]⟩ ht.isInfix)
  · -- The rest of the closing tag would be the start of the opening one.
    have hstart : ∀ u ∈ endTag.tails, u.head? = some '<' → u = endTag := by decide
    cases u with
    | nil =>
      rw [List.append_nil] at hu
      exact h (hu ▸ ht.isInfix)
    | cons c u =>
      have hc : c = '<' := (List.cons.inj hrest).1.symm
      have hall : c :: u = endTag :=
        hstart _ ((List.mem_tails _ endTag).mpr ⟨t, hu.symm⟩) (by rw [List.head?_cons, hc])
      rw [hall] at hu
      exact hne (List.self_eq_append_left.mp hu)

theorem parse_of_block {before inside after : List Char} {text : String} (R : Reader)
    (h : Block text.toList before inside after) :
    parseToolCalls R text = readBlock R inside := by
  have hstart : find openTag text.toList 0 = some before.length := by
    rw [find_eq_some (b := before) (a := inside ++ endTag ++ after) h.opened, Nat.zero_add]
  have hstop : find endTag text.toList before.length =
      some (before.length + (openTag ++ inside).length) := by
    refine find_eq_some (a := after) (cutAt_eq_some_iff.mp ?_)
    rw [h.parts, List.append_assoc, List.drop_left, cutAt_openTag,
      cutAt_eq_some_iff.mpr h.closed]
    rfl
  have hslice : slice text.toList (before.length + openTag.length)
      (before.length + (openTag ++ inside).length) = inside := by
    have hwidth : before.length + (openTag ++ inside).length -
        (before.length + openTag.length) = inside.length := by
      rw [List.length_append]
      omega
    unfold slice
    rw [hwidth, h.parts, ← List.length_append, List.drop_left, List.append_assoc, List.take_left]
  unfold parseToolCalls
  simp only [hstart, hstop, hslice]

theorem parse_of_no_block {text : String} (R : Reader)
    (h : ∀ before inside after, ¬ Block text.toList before inside after) :
    parseToolCalls R text = .ok none := by
  unfold parseToolCalls
  cases hopen : cutAt openTag text.toList with
  | none =>
    have hstart : find openTag text.toList 0 = none := find_eq_none hopen
    simp only [hstart]
  | some opened =>
    have hopened : FirstCut openTag text.toList opened.1 opened.2 := cutAt_eq_some_iff.mp hopen
    have hstart : find openTag text.toList 0 = some opened.1.length := by
      rw [find_eq_some (b := opened.1) (a := opened.2) hopened, Nat.zero_add]
    cases hclose : cutAt endTag opened.2 with
    | none =>
      have hstop : find endTag text.toList opened.1.length = none := by
        refine find_eq_none ?_
        rw [hopened.parts, List.append_assoc, List.drop_left, cutAt_openTag, hclose]
        rfl
      simp only [hstart, hstop]
    | some closed =>
      have hclosed : FirstCut endTag opened.2 closed.1 closed.2 := cutAt_eq_some_iff.mp hclose
      have hparts := hclosed.parts
      exact absurd ⟨hparts ▸ hopened, hparts ▸ hclosed⟩ (h opened.1 closed.1 closed.2)

/-! ## What is left of the text -/

theorem find_openTag {letters before inside after : List Char}
    (h : Block letters before inside after) : find openTag letters 0 = some before.length := by
  rw [find_eq_some (b := before) (a := inside ++ endTag ++ after) h.opened, Nat.zero_add]

theorem take_before {letters before inside after : List Char}
    (h : Block letters before inside after) : letters.take before.length = before := by
  rw [h.parts, List.append_assoc, List.take_left]

/-- Without a closing tag in front of the block both functions see the same block. -/
theorem strip_of_block {before inside after : List Char} {text : String}
    (h : Block text.toList before inside after) (hfront : ¬ endTag <:+: before) :
    stripToolCalls text = trimmed (before ++ after) := by
  have hcut : FirstCut endTag text.toList (before ++ (openTag ++ inside)) after := by
    refine cutAt_eq_some_iff.mp ?_
    rw [h.parts, List.append_assoc, cutAt_before hfront, cutAt_openTag,
      cutAt_eq_some_iff.mpr h.closed]
    rfl
  have hstop : find endTag text.toList 0 = some (before ++ (openTag ++ inside)).length := by
    rw [find_eq_some (b := before ++ (openTag ++ inside)) (a := after) hcut, Nat.zero_add]
  have hrest : text.toList.drop ((before ++ (openTag ++ inside)).length + endTag.length) =
      after := by
    rw [hcut.parts, ← List.length_append, List.drop_left]
  unfold stripToolCalls
  simp only [find_openTag h, hstop, take_before h, hrest]

theorem solid_of_trimmed {l m : List Char} (h : trimmed l = trimmed m) : solid l = solid m := by
  have hread : ∀ l, solid ((trimmed l).getD "").toList = solid l := by
    intro l
    have hstrip : solid (strip (String.ofList l)).toList = solid l := by
      rw [solid_strip, String.toList_ofList]
    unfold trimmed
    by_cases hempty : strip (String.ofList l) = ""
    · simp only [hempty, if_true]
      rw [hempty] at hstrip
      exact hstrip
    · simp only [hempty, if_false]
      exact hstrip
  rw [← hread l, ← hread m, h]

/-- A closing tag in front of the block is taken for its end, and letters stand twice. -/
theorem strip_of_early {before inside after : List Char} {text : String}
    (h : Block text.toList before inside after) (hfront : endTag <:+: before) :
    stripToolCalls text ≠ trimmed (before ++ after) := by
  obtain ⟨⟨b, a⟩, hparts⟩ := Option.isSome_iff_exists.mp ((isSome_cutAt_iff _ _).mpr hfront)
  have hcut : FirstCut endTag text.toList b (a ++ (openTag ++ (inside ++ endTag ++ after))) := by
    rw [h.parts, List.append_assoc]
    exact (cutAt_eq_some_iff.mp hparts).append _
  have hstop : find endTag text.toList 0 = some b.length := by
    rw [find_eq_some (b := b) (a := a ++ (openTag ++ (inside ++ endTag ++ after))) hcut,
      Nat.zero_add]
  have hrest : text.toList.drop (b.length + endTag.length) =
      a ++ (openTag ++ (inside ++ endTag ++ after)) := by
    rw [hcut.parts, ← List.length_append, List.drop_left]
  unfold stripToolCalls
  simp only [find_openTag h, hstop, take_before h, hrest]
  intro hsame
  have hsolid := solid_of_trimmed hsame
  have htag : solid openTag = 12 := by decide
  simp only [solid_append, htag] at hsolid
  omega

/-! ## The calls -/

/-- A `ToolCall` takes the item. -/
def IsCall : Json → Prop
  | .dict members =>
    (∀ name, members.lookup "name" = some name → ∃ s, name = .str s) ∧
      ∀ arguments, members.lookup "arguments" = some arguments → ∃ fields, arguments = .dict fields
  | _ => False

theorem forall_some_iff {P : Json → Prop} {found : Option Json} (default : Json)
    (h : P default) : (∀ v, found = some v → P v) ↔ P (found.getD default) := by
  cases found with
  | none => simp [h]
  | some v => simp

theorem readCall_ok_iff (R : Reader) (id : String) (item : Json) :
    (∃ call, readCall R id item = .ok call) ↔ IsCall item := by
  cases item with
  | dict members =>
    simp only [readCall, IsCall]
    rw [forall_some_iff (P := fun name => ∃ s, name = .str s) (.str "") ⟨_, rfl⟩,
      forall_some_iff (P := fun arguments => ∃ fields, arguments = .dict fields) (.dict [])
        ⟨_, rfl⟩]
    constructor
    · rintro ⟨call, hcall⟩
      split at hcall
      · rename_i name arguments hname harguments
        exact ⟨⟨name, hname⟩, arguments, harguments⟩
      · cases hcall
    · rintro ⟨⟨name, hname⟩, arguments, harguments⟩
      rw [hname, harguments]
      exact ⟨_, rfl⟩
  | _ => simp [readCall, IsCall]

theorem readCalls_ok_iff (R : Reader) (i : Nat) (items : List Json) :
    (∃ calls, readCalls R i items = .ok calls) ↔ ∀ item ∈ items, IsCall item := by
  induction items generalizing i with
  | nil => simp [readCalls]
  | cons item items ih =>
    rw [List.forall_mem_cons, ← readCall_ok_iff R ("call_" ++ cut (R.hex i) 12), ← ih (i + 1)]
    rw [readCalls]
    cases readCall R ("call_" ++ cut (R.hex i) 12) item with
    | error e => simp
    | ok call =>
      cases readCalls R (i + 1) items with
      | error e => simp
      | ok calls => simp

theorem length_readCalls {R : Reader} {i : Nat} {items : List Json} {calls : List ToolCall}
    (h : readCalls R i items = .ok calls) : calls.length = items.length := by
  induction items generalizing i calls with
  | nil =>
    cases h
    rfl
  | cons item items ih =>
    rw [readCalls] at h
    split at h
    · cases h
    · split at h
      · cases h
      · rename_i more hmore
        cases h
        rw [List.length_cons, List.length_cons, ih hmore]

theorem readBlock_ok_iff (R : Reader) (inside : List Char) :
    (∃ calls, readBlock R inside = .ok calls) ↔
      (∀ e, R.loads (strip (String.ofList inside)) ≠ .error (.other e)) ∧
        ∀ raw, R.loads (strip (String.ofList inside)) = .ok raw → ∀ item ∈ raw.items,
          IsCall item := by
  unfold readBlock
  rcases hloads : R.loads (strip (String.ofList inside)) with (_ | e) | raw
  · simp
  · simp
  · simp only [ne_eq, reduceCtorEq, not_false_eq_true, implies_true, true_and, Except.ok.injEq,
      forall_eq']
    rw [← readCalls_ok_iff R 0]
    cases readCalls R 0 raw.items with
    | error e => simp
    | ok calls => simp

/-- Calls are returned exactly where there are items. -/
theorem items_of_readBlock {R : Reader} {inside : List Char} {found : Option (List ToolCall)}
    (h : readBlock R inside = .ok found) :
    found ≠ none ↔ ∃ raw, R.loads (strip (String.ofList inside)) = .ok raw ∧ raw.items ≠ [] := by
  unfold readBlock at h
  rcases hloads : R.loads (strip (String.ofList inside)) with (_ | e) | raw
  · simp only [hloads, Except.ok.injEq] at h
    simp [← h]
  · simp only [hloads, reduceCtorEq] at h
  · simp only [hloads] at h
    split at h
    · cases h
    · rename_i calls hcalls
      have hempty : calls = [] ↔ raw.items = [] := by
        rw [← List.length_eq_zero_iff, length_readCalls hcalls, List.length_eq_zero_iff]
      cases h
      simp [hempty]

/-! ## Extraction and removal -/

/-- The calls are read without an error, and where there are calls, what is left is the text
before and after the block they were read from. -/
def Exact (R : Reader) (text : String) : Prop :=
  (∃ found, parseToolCalls R text = .ok found) ∧
    ∀ calls, parseToolCalls R text = .ok (some calls) →
      ∃ before inside after, Block text.toList before inside after ∧
        readBlock R inside = .ok (some calls) ∧ stripToolCalls text = trimmed (before ++ after)

/-- The JSON of the block fails with a decode error at most and holds calls only, and where it
holds one, no closing tag stands in front of the block. -/
def WellFormed (R : Reader) (text : String) : Prop :=
  ∀ before inside after, Block text.toList before inside after →
    (∀ e, R.loads (strip (String.ofList inside)) ≠ .error (.other e)) ∧
      ∀ raw, R.loads (strip (String.ofList inside)) = .ok raw →
        (∀ item ∈ raw.items, IsCall item) ∧ (raw.items ≠ [] → ¬ endTag <:+: before)

/-- The calls of a text are read and taken out as one block exactly where it is well formed. -/
theorem exact_iff_wellFormed (R : Reader) (text : String) : Exact R text ↔ WellFormed R text := by
  by_cases hblock : ∃ before inside after, Block text.toList before inside after
  · obtain ⟨before, inside, after, hblock⟩ := hblock
    have honly : ∀ b i a, Block text.toList b i a → b = before ∧ i = inside ∧ a = after := by
      intro b i a h
      obtain ⟨hb, hrest⟩ := h.opened.unique hblock.opened
      obtain ⟨hi, ha⟩ := FirstCut.unique (hrest ▸ h.closed) hblock.closed
      exact ⟨hb, hi, ha⟩
    unfold Exact WellFormed
    rw [parse_of_block R hblock]
    constructor
    · rintro ⟨hread, hexact⟩ b i a h
      obtain ⟨rfl, rfl, rfl⟩ := honly b i a h
      obtain ⟨hload, hitems⟩ := (readBlock_ok_iff R i).mp hread
      refine ⟨hload, fun raw hraw => ⟨hitems raw hraw, fun hne hfront => ?_⟩⟩
      obtain ⟨found, hfound⟩ := hread
      have hsome : found ≠ none := (items_of_readBlock hfound).mpr ⟨raw, hraw, hne⟩
      obtain ⟨calls, rfl⟩ := Option.ne_none_iff_exists'.mp hsome
      obtain ⟨b', i', a', h', -, hstrip⟩ := hexact calls hfound
      obtain ⟨rfl, rfl, rfl⟩ := honly b' i' a' h'
      exact strip_of_early h' hfront hstrip
    · intro hwell
      obtain ⟨hload, hitems⟩ := hwell before inside after hblock
      have hread : ∃ found, readBlock R inside = .ok found :=
        (readBlock_ok_iff R inside).mpr ⟨hload, fun raw hraw => (hitems raw hraw).1⟩
      refine ⟨hread, fun calls hcalls => ⟨before, inside, after, hblock, hcalls, ?_⟩⟩
      obtain ⟨raw, hraw, hne⟩ := (items_of_readBlock hcalls).mp (Option.some_ne_none calls)
      exact strip_of_block hblock ((hitems raw hraw).2 hne)
  · have hno : ∀ before inside after, ¬ Block text.toList before inside after :=
      fun before inside after h => hblock ⟨before, inside, after, h⟩
    unfold Exact WellFormed
    rw [parse_of_no_block R hno]
    simp [hno]

/-- Two texts are JSON, a list with a number in it and an empty dict. -/
def plainReader : Reader where
  loads text :=
    if text = "[1]" then .ok (.list [.int 1])
    else if text = "\x7b\x7d" then .ok (.dict [])
    else .error .decode
  hex _ := "0123456789abcdef"
  refused _ _ := ⟨"ValidationError", "1 validation error for ToolCall", false⟩

/-- The text after an opening tag that comes too late. -/
def stray : String := "</tool_calls><tool_calls>\x7b\x7d</tool_calls>"

theorem parse_stray :
    parseToolCalls plainReader stray = .ok (some [⟨"call_0123456789ab", "", []⟩]) := by
  rfl

/-- A list that holds a number raises. After a stray closing tag the block stays in the text. -/
theorem a_number_raises_and_a_stray_tag_stays :
    parseToolCalls plainReader "<tool_calls>[1]</tool_calls>" =
        .error ⟨"AttributeError", "'int' object has no attribute 'get'", false⟩ ∧
      ¬ Exact plainReader "<tool_calls>[1]</tool_calls>" ∧
      stripToolCalls stray = some stray ∧ ¬ Exact plainReader stray := by
  have hraises : parseToolCalls plainReader "<tool_calls>[1]</tool_calls>" =
      .error ⟨"AttributeError", "'int' object has no attribute 'get'", false⟩ := by rfl
  refine ⟨hraises, ?_, by decide, ?_⟩
  · rintro ⟨⟨found, hfound⟩, -⟩
    rw [hraises] at hfound
    cases hfound
  · rintro ⟨-, hexact⟩
    obtain ⟨before, inside, after, hblock, -, hstrip⟩ := hexact _ parse_stray
    have hcut : cutAt openTag stray.toList = some (endTag, '\x7b' :: '\x7d' :: endTag) := by
      decide
    obtain ⟨rfl, -⟩ := (cutAt_eq_some_iff.mp hcut).unique hblock.opened
    exact strip_of_early hblock List.infix_rfl hstrip

end orchestra.tool_tags
