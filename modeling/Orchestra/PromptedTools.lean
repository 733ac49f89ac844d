-- Tool calls of models without native tools (`PromptedStrategy` of `providers/strategy.py`): the
-- tools go into the prompt, and the calls are read back from the text of the answer.
import Orchestra.Lib.JsonReader
import Orchestra.Lib.Text
import Orchestra.PromptHash

open texts json_reader

namespace orchestra.prompted_tools

/-! ## Requests and responses -/

/-- An `output_type`: the schema of a pydantic model, or another value, by its `repr`. -/
inductive OutputType
  | model (schema : Doc)
  | other (repr : String)

structure Request where
  messages : List prompt_hash.Message
  model : Option String
  tools : Option (List Doc)
  temperature : Rat
  maxTokens : Option Int
  outputType : Option OutputType

inductive FinishReason
  | stop
  | toolCalls
  | length
  | error
  | safety
deriving DecidableEq, Repr

structure ToolCall where
  id : String
  name : String
  arguments : List (String × Doc)

structure LLMResponse (Raw : Type) where
  content : Option String
  toolCalls : List ToolCall
  finishReason : FinishReason
  usage : Option agent.TokenUsage
  model : String
  rawResponse : Option Raw

/-! ## The prompts -/

/-- A line break and the indent of a level. -/
def newline (level : Nat) : List Char := '\n' :: List.replicate (2 * level) ' '

mutual

/-- `json.dumps(value, indent=2)`, at a level. -/
def indented (level : Nat) : Doc → List Char
  | .null => "null".toList
  | .bool b => if b then "true".toList else "false".toList
  | .int i => jsons.writeInt i
  | .float text => text.toList
  | .str s => jsons.writeString s
  | .list [] => "[]".toList
  | .list (item :: items) =>
    '[' :: newline (level + 1) ++ indentedItems (level + 1) (item :: items) ++
      newline level ++ [']']
  | .dict [] => ['\x7b', '\x7d']
  | .dict (member :: members) =>
    '\x7b' :: newline (level + 1) ++ indentedMembers (level + 1) (member :: members) ++
      newline level ++ ['\x7d']

def indentedItems (level : Nat) : List Doc → List Char
  | [] => []
  | [item] => indented level item
  | item :: items => indented level item ++ ',' :: newline level ++ indentedItems level items

def indentedMembers (level : Nat) : List (String × Doc) → List Char
  | [] => []
  | [(key, value)] => jsons.writeString key ++ ": ".toList ++ indented level value
  | (key, value) :: members =>
    jsons.writeString key ++ ": ".toList ++ indented level value ++ ',' :: newline level ++
      indentedMembers level members

end

/-- `json.dumps(value, indent=2)` -/
def dumps (value : Doc) : String := String.ofList (indented 0 value)

def buildToolPrompt (tools : List Doc) : String :=
  "Available tools:\n" ++ dumps (.list tools) ++ "\n\n" ++
    "To use a tool, respond with a JSON object in this format:\n" ++
    "\x7b\"tool_calls\": [\x7b\"name\": \"tool_name\", " ++
    "\"arguments\": \x7b\"arg1\": \"val1\"\x7d\x7d]\x7d"

def buildSchemaPrompt (schema : Doc) : String :=
  "You must return your response as a JSON object matching this schema:\n" ++ dumps schema ++
    "\n\n" ++ "Return ONLY the JSON object."

/-- `Message(role=MessageRole.SYSTEM, content=content)` -/
def system (content : String) : prompt_hash.Message :=
  ⟨.system, content, none, none, none, none, ⟨[], List.nodup_nil⟩⟩

/-! ## The answer -/

/-- Three backticks. -/
def ticks : List Char := ['\x60', '\x60', '\x60']

/-- The marker of a JSON block. -/
def fence : List Char := '\x60' :: '\x60' :: '\x60' :: "json".toList

/-- From the first opening brace to the last closing one. -/
def braces (content : List Char) : List Char :=
  let start := content.findIdx (· = '\x7b')
  let stop := content.length - content.reverse.findIdx (· = '\x7d')
  (content.take stop).drop start

/-- The part of the content that is given to `json.loads`. -/
def locate (content : String) : List Char :=
  let content := strip content
  let marker := String.ofList fence
  if contains content marker then
    (strip (before (before (after content marker) marker) (String.ofList ticks))).toList
  else if content.toList.contains '\x7b' then braces content.toList
  else content.toList

/-- One turn of the loop, with the id of the new call. What is raised is `none` here, since all of
it is caught. -/
def readCall (id : String) : Doc → Option ToolCall
  | .dict members => do
    let name ← members.lookup "name"
    let arguments ← members.lookup "arguments"
    match name, arguments with
    | .str name, .dict arguments => some ⟨id, name, arguments⟩
    | _, _ => none
  | _ => none

/-- The calls of the items, of which `i` came before. -/
def readCalls (hex : Nat → String) (i : Nat) : List Doc → Option (List ToolCall)
  | [] => some []
  | item :: items => do
    let call ← readCall ("call_" ++ cut (hex i) 12) item
    let calls ← readCalls hex (i + 1) items
    return call :: calls

/-- What `for tc in raw` goes over. -/
def elements : Doc → Option (List Doc)
  | .list items => some items
  | .dict members => some (members.map fun m => .str m.1)
  | .str s => some (s.toList.map fun c => .str c.toString)
  | _ => none

def isKey : Doc → Bool
  | .str s => s = "tool_calls"
  | _ => false

/-- `if tools and "tool_calls" in data` with the loop. Only a dict takes a text in `data[..]`. -/
def extract (hex : Nat → String) (tools : Option (List Doc)) (data : Doc) :
    Option (List ToolCall) :=
  if (tools.getD []).isEmpty then some []
  else
    match data with
    | .dict members =>
      match members.lookup "tool_calls" with
      | some raw => (elements raw).bind (readCalls hex 0)
      | none => some []
    | .list items => if items.any isKey then none else some []
    | .str s => if contains s "tool_calls" then none else some []
    | _ => none

/-- `_parse_prompted_response`. `hex` is `uuid.uuid4().hex` for each call. -/
def parsePromptedResponse {Raw : Type} (hex : Nat → String) (response : LLMResponse Raw)
    (tools : Option (List Doc)) : LLMResponse Raw :=
  match response.content with
  | none => response
  | some content =>
    if content = "" then response
    else
      match (loads (locate content)).bind (extract hex tools) with
      | some calls => { response with toolCalls := calls, finishReason := .stop }
      | none => response

/-- What the provider is asked, for a valid `output_type`. -/
def Request.asked (request : Request) : Request :=
  let toolMessages :=
    match request.tools with
    | none | some [] => []
    | some tools => [system (buildToolPrompt tools)]
  let schemaMessages :=
    match request.outputType with
    | some (.model schema) => [system (buildSchemaPrompt schema)]
    | _ => []
  { request with
    messages := request.messages ++ toolMessages ++ schemaMessages
    tools := none
    outputType := none }

/-- `PromptedStrategy.execute` -/
def execute {Raw : Type} (provider : Request → Except Raised (LLMResponse Raw))
    (hex : Nat → String) (request : Request) : Except Raised (LLMResponse Raw) :=
  match request.outputType with
  | some (.other repr) =>
    .error ⟨"ValueError", "output_type must be a Pydantic BaseModel class, got " ++ repr ++
      ". Make sure you pass the class itself, not an instance.", false⟩
  | _ => do
    let response ← provider request.asked
    return parsePromptedResponse hex response request.tools

/-! ## Written calls -/

/-- A call without its id. -/
abbrev Call := String × List (String × Doc)

def ToolCall.call (c : ToolCall) : Call := (c.name, c.arguments)

def LLMResponse.calls {Raw : Type} (response : LLMResponse Raw) : List Call :=
  response.toolCalls.map ToolCall.call

/-- The JSON object that the tool prompt asks for. -/
def object (calls : List Call) : Doc :=
  .dict [("tool_calls", .list (calls.map fun c =>
    .dict [("name", .str c.1), ("arguments", .dict c.2)]))]

/-- The object of the calls as a JSON text, in any layout. -/
structure Written (calls : List Call) (text : List Char) : Prop where
  value : loads text = some (object calls)
  first : text.head? = some '\x7b'
  last : text.getLast? = some '\x7d'

/-- Prose without braces and backticks. -/
def Prose (l : List Char) : Prop := '\x7b' ∉ l ∧ '\x7d' ∉ l ∧ '\x60' ∉ l

/-- How the text of the calls stands in an answer. -/
inductive Form
  | bare
  | fenced (above below : List Char)

def Form.content (before text after : List Char) : Form → List Char
  | bare => before ++ text ++ after
  | fenced above below => before ++ fence ++ (above ++ text ++ below) ++ ticks ++ after

/-- Only blanks stand between a fence and the text. -/
def Form.Blank : Form → Prop
  | bare => True
  | fenced above below => ∀ c ∈ above ++ below, isSpace c = true

/-- The text does not hold what ends the search for it. -/
def Form.Clear (text : List Char) : Form → Prop
  | bare => ¬ fence <:+: text
  | fenced _ _ => ¬ ticks <:+: text

def IsCall (item : Doc) (c : Call) : Prop :=
  ∃ fields, item = .dict fields ∧ fields.lookup "name" = some (.str c.1) ∧
    fields.lookup "arguments" = some (.dict c.2)

/-- `calls` are those of all items of the list of calls in `data`. -/
def Lists (data : Doc) (calls : List Call) : Prop :=
  ∃ members items, data = .dict members ∧ members.lookup "tool_calls" = some (.list items) ∧
    List.Forall₂ IsCall items calls

/-- No call, or all calls of a list that stands in the content. -/
def Whole (content : List Char) (calls : List Call) : Prop :=
  calls = [] ∨ ∃ part data, part <:+: content ∧ loads part = some data ∧ Lists data calls

/-! ## Reading the calls -/

theorem isCall_of_readCall {id : String} {item : Doc} {call : ToolCall}
    (h : readCall id item = some call) : IsCall item call.call := by
  cases item with
  | dict members =>
    simp only [readCall, Option.bind_eq_bind, Option.bind_eq_some_iff] at h
    obtain ⟨name, hname, arguments, harguments, hcall⟩ := h
    cases name with
    | str name =>
      cases arguments with
      | dict arguments =>
        cases hcall
        exact ⟨members, rfl, hname, harguments⟩
      | _ => cases hcall
    | _ => cases hcall
  | _ => cases h

theorem readCall_of_isCall {item : Doc} {c : Call} (h : IsCall item c) (id : String) :
    readCall id item = some ⟨id, c.1, c.2⟩ := by
  obtain ⟨fields, rfl, hname, harguments⟩ := h
  simp only [readCall, hname, harguments]
  rfl

theorem forall_isCall_of_readCalls {hex : Nat → String} {i : Nat} {items : List Doc}
    {calls : List ToolCall} (h : readCalls hex i items = some calls) :
    List.Forall₂ IsCall items (calls.map ToolCall.call) := by
  induction items generalizing i calls with
  | nil =>
    cases h
    exact .nil
  | cons item items ih =>
    simp only [readCalls, Option.bind_eq_bind, Option.bind_eq_some_iff] at h
    obtain ⟨call, hcall, later, hlater, heq⟩ := h
    cases heq
    exact .cons (isCall_of_readCall hcall) (ih hlater)

theorem readCalls_of_forall {items : List Doc} {cs : List Call}
    (h : List.Forall₂ IsCall items cs) (hex : Nat → String) (i : Nat) :
    ∃ calls, readCalls hex i items = some calls ∧ calls.map ToolCall.call = cs := by
  induction h generalizing i with
  | nil => exact ⟨[], rfl, rfl⟩
  | @cons item c items cs hcall _ ih =>
    obtain ⟨later, hlater, rfl⟩ := ih (i + 1)
    refine ⟨⟨"call_" ++ cut (hex i) 12, c.1, c.2⟩ :: later, ?_, rfl⟩
    simp only [readCalls, readCall_of_isCall hcall, hlater]
    rfl

theorem forall_isCall_object (calls : List Call) : List.Forall₂ IsCall
    (calls.map fun c => .dict [("name", .str c.1), ("arguments", .dict c.2)]) calls := by
  induction calls with
  | nil => exact .nil
  | cons c calls ih => exact .cons ⟨_, rfl, rfl, rfl⟩ ih

/-- The tools of the request are given. -/
def Given (tools : Option (List Doc)) : Prop := ∃ tool later, tools = some (tool :: later)

theorem extract_object {tools : Option (List Doc)} (htools : Given tools) (hex : Nat → String)
    (cs : List Call) : ∃ calls, extract hex tools (object cs) = some calls ∧
      calls.map ToolCall.call = cs := by
  obtain ⟨tool, later, rfl⟩ := htools
  exact readCalls_of_forall (forall_isCall_object cs) hex 0

theorem elements_eq {raw : Doc} {items : List Doc} (h : elements raw = some items) :
    raw = .list items ∨ ∀ item ∈ items, ∃ s, item = .str s := by
  cases raw with
  | list items =>
    cases h
    exact .inl rfl
  | dict members =>
    cases h
    exact .inr fun item hitem => by
      obtain ⟨m, -, rfl⟩ := List.mem_map.mp hitem
      exact ⟨m.1, rfl⟩
  | str s =>
    cases h
    exact .inr fun item hitem => by
      obtain ⟨c, -, rfl⟩ := List.mem_map.mp hitem
      exact ⟨c.toString, rfl⟩
  | _ => cases h

theorem lists_of_extract {hex : Nat → String} {tools : Option (List Doc)} {data : Doc}
    {calls : List ToolCall} (h : extract hex tools data = some calls) (hne : calls ≠ []) :
    Lists data (calls.map ToolCall.call) := by
  unfold extract at h
  split at h
  · cases h
    exact absurd rfl hne
  · split at h
    · rename_i members
      split at h
      · rename_i raw hraw
        obtain ⟨items, hitems, hcalls⟩ := Option.bind_eq_some_iff.mp h
        have hall := forall_isCall_of_readCalls hcalls
        rcases elements_eq hitems with rfl | htexts
        · exact ⟨members, items, rfl, hraw, hall⟩
        · cases calls with
          | nil => exact absurd rfl hne
          | cons call calls =>
            cases hall with
            | cons hcall _ =>
              obtain ⟨s, rfl⟩ := htexts _ List.mem_cons_self
              obtain ⟨fields, hfields, -⟩ := hcall
              cases hfields
      · cases h
        exact absurd rfl hne
    · split at h
      · cases h
      · cases h
        exact absurd rfl hne
    · split at h
      · cases h
      · cases h
        exact absurd rfl hne
    · cases h

/-! ## Where the text is found -/

theorem locate_infix (content : String) : locate content <:+: content.toList := by
  have hstrip := infix_strip content
  unfold locate
  dsimp only
  split
  · refine (infix_strip _).trans ((prefix_before _ _).isInfix.trans ?_)
    exact (prefix_before _ _).isInfix.trans ((infix_after _ _).trans hstrip)
  · split
    · refine List.IsInfix.trans ?_ hstrip
      exact (List.drop_suffix ..).isInfix.trans (List.take_prefix ..).isInfix
    · exact hstrip

/-- What stands before a fence and before ticks ends at ticks, where some come. -/
theorem before_before {s : String} (h : ticks <:+: s.toList) :
    ∃ m, s.toList = (before (before s (String.ofList fence)) (String.ofList ticks)).toList ++
      ticks ++ m := by
  have hticks : (String.ofList ticks).toList = ticks := String.toList_ofList
  have hfence : (String.ofList fence).toList = ticks ++ "json".toList := String.toList_ofList
  rcases before_cases (before s (String.ofList fence)) (String.ofList ticks) with
    ⟨hnone, hsame⟩ | ⟨m, hm⟩
  · rw [hsame]
    rcases before_cases s (String.ofList fence) with ⟨-, hsame'⟩ | ⟨m', hm'⟩
    · rw [hsame', hticks] at hnone
      exact absurd h hnone
    · refine ⟨"json".toList ++ m', ?_⟩
      rw [hfence] at hm'
      rw [hm']
      simp
  · obtain ⟨m', hm'⟩ := prefix_before s (String.ofList fence)
    refine ⟨m ++ m', ?_⟩
    rw [← hm', hm, hticks]
    simp

theorem Prose.mono {l m : List Char} (h : Prose l) (hm : ∀ c ∈ m, c ∈ l) : Prose m :=
  ⟨fun hc => h.1 (hm _ hc), fun hc => h.2.1 (hm _ hc), fun hc => h.2.2 (hm _ hc)⟩

theorem Prose.dropWhile {l : List Char} (h : Prose l) : Prose (l.dropWhile isSpace) :=
  h.mono fun _ hc => (List.dropWhile_suffix _).subset hc

theorem Prose.reverse {l : List Char} (h : Prose l) : Prose l.reverse :=
  h.mono fun _ hc => List.mem_reverse.mp hc

/-- A text of calls in prose, stripped. -/
theorem exists_strip_bare {calls : List Call} {before text after : List Char}
    (h : Written calls text) (hbefore : Prose before) (hafter : Prose after) :
    ∃ b a, Prose b ∧ Prose a ∧
      (strip (String.ofList (before ++ text ++ after))).toList = b ++ text ++ a :=
  ⟨_, _, hbefore.dropWhile, hafter.reverse.dropWhile.reverse,
    strip_around h.first (by decide) h.last (by decide)⟩

theorem findIdx_append_head {l t : List Char} {c : Char} (hl : c ∉ l) (ht : t.head? = some c) :
    (l ++ t).findIdx (· = c) = l.length := by
  obtain ⟨t, rfl⟩ := List.head?_eq_some_iff.mp ht
  induction l with
  | nil => simp [List.findIdx_cons]
  | cons d l ih =>
    rw [List.mem_cons, not_or] at hl
    rw [List.cons_append, List.findIdx_cons, ih hl.2]
    have hd : d ≠ c := fun h => hl.1 h.symm
    simp [hd]

theorem braces_append {b text a : List Char} (hb : '\x7b' ∉ b) (ha : '\x7d' ∉ a)
    (hfirst : text.head? = some '\x7b') (hlast : text.getLast? = some '\x7d') :
    braces (b ++ text ++ a) = text := by
  have hstart : (b ++ text ++ a).findIdx (· = '\x7b') = b.length := by
    rw [List.append_assoc]
    refine findIdx_append_head hb ?_
    rw [List.head?_append, hfirst]
    rfl
  have hstop : (b ++ text ++ a).reverse.findIdx (· = '\x7d') = a.length := by
    rw [List.reverse_append, ← List.length_reverse]
    refine findIdx_append_head (by simpa using ha) ?_
    rw [List.head?_reverse, List.getLast?_append, hlast]
    rfl
  unfold braces
  dsimp only
  rw [hstart, hstop, List.length_append, Nat.add_sub_cancel, List.take_left, List.drop_left]

theorem fence_shape : '\x7d' ∉ fence ∧ '\x7d' ∉ ticks ∧ (String.ofList fence).toList = fence ∧
    (String.ofList ticks).toList = ticks :=
  ⟨by decide, by decide, String.toList_ofList, String.toList_ofList⟩

theorem locate_bare {calls : List Call} {before text after : List Char} (h : Written calls text)
    (hbefore : Prose before) (hafter : Prose after) (hclear : ¬ fence <:+: text) :
    locate (String.ofList (before ++ text ++ after)) = text := by
  obtain ⟨b, a, hb, ha, hstrip⟩ := exists_strip_bare h hbefore hafter
  have hfence : ¬ contains (strip (String.ofList (before ++ text ++ after)))
      (String.ofList fence) = true := by
    rw [contains_iff, hstrip, fence_shape.2.2.1]
    rintro ⟨x, y, hxy⟩
    obtain ⟨p, q, -, -, htext⟩ := parts_within hb.2.2 ha.2.2 h.last fence_shape.1 hxy
    exact hclear ⟨p, q, htext.symm⟩
  have hbrace : (b ++ text ++ a).contains '\x7b' = true := by
    obtain ⟨t, rfl⟩ := List.head?_eq_some_iff.mp h.first
    simp
  unfold locate
  dsimp only
  rw [if_neg hfence, hstrip, if_pos hbrace]
  exact braces_append hb.1 ha.2.1 h.first h.last

/-- The piece between the first fence and the ticks that come next. -/
def piece (content : String) : String :=
  let content := strip content
  let marker := String.ofList fence
  before (before (after content marker) marker) (String.ofList ticks)

theorem locate_of_fence {content : String} (h : fence <:+: (strip content).toList) :
    locate content = (strip (piece content)).toList := by
  have hcontains : contains (strip content) (String.ofList fence) = true := by
    rw [contains_iff, fence_shape.2.2.1]
    exact h
  unfold locate
  dsimp only
  rw [if_pos hcontains]
  rfl

theorem piece_prefix (content : String) :
    (piece content).toList <+: (after (strip content) (String.ofList fence)).toList := by
  unfold piece
  exact (prefix_before _ _).trans (prefix_before _ _)

theorem not_infix_piece (content : String) : ¬ ticks <:+: (piece content).toList := by
  have h := not_infix_before (s := before (after (strip content) (String.ofList fence))
    (String.ofList fence)) (p := String.ofList ticks) (by rw [fence_shape.2.2.2]; decide)
  rwa [fence_shape.2.2.2] at h

/-- The text in a fence: the piece is what stands before the next ticks. -/
theorem exists_piece (mid : List Char) {before after : List Char} (hbefore : Prose before)
    (hafter : Prose after) :
    fence <:+: (strip (String.ofList (before ++ fence ++ mid ++ ticks ++ after))).toList ∧
    ∃ a m, Prose a ∧ mid ++ ticks ++ a =
      (piece (String.ofList (before ++ fence ++ mid ++ ticks ++ after))).toList ++ ticks ++ m := by
  have hstrip := strip_around (l := before) (m := fence ++ mid ++ ticks) (r := after)
    (a := '\x60') (b := '\x60') rfl (by decide) (by simp [ticks]) (by decide)
  have hparts : before ++ (fence ++ mid ++ ticks) ++ after =
      before ++ fence ++ mid ++ ticks ++ after := by simp
  rw [hparts] at hstrip
  set content := String.ofList (before ++ fence ++ mid ++ ticks ++ after)
  set b := before.dropWhile isSpace
  set a := (after.reverse.dropWhile isSpace).reverse
  have hb : Prose b := hbefore.dropWhile
  have ha : Prose a := hafter.reverse.dropWhile.reverse
  have hcut : FirstCut fence (strip content).toList b (mid ++ ticks ++ a) := by
    have hcontent : (strip content).toList = b ++ fence ++ (mid ++ ticks ++ a) := by
      rw [hstrip]
      simp
    rw [hcontent]
    exact firstCut_of_notMem hb.2.2
  refine ⟨⟨b, mid ++ ticks ++ a, hcut.parts.symm⟩, ?_⟩
  have hrest : (texts.after (strip content) (String.ofList fence)).toList = mid ++ ticks ++ a := by
    unfold texts.after
    rw [fence_shape.2.2.1, cutAt_eq_some_iff.mpr hcut]
    exact String.toList_ofList
  obtain ⟨m, hm⟩ := before_before (s := texts.after (strip content) (String.ofList fence))
    (by rw [hrest]; exact ⟨mid, a, rfl⟩)
  rw [hrest] at hm
  exact ⟨a, m, ha, hm⟩

theorem notMem_of_isSpace {l : List Char} (h : ∀ c ∈ l, isSpace c = true) {c : Char}
    (hc : isSpace c = false) : c ∉ l := by
  intro hmem
  rw [h c hmem] at hc
  cases hc

theorem getLast?_mid {calls : List Call} {above text below : List Char} (h : Written calls text)
    (hblank : ∀ c ∈ above ++ below, isSpace c = true) :
    (above ++ text ++ below).getLast? ≠ some '\x60' := by
  rw [List.getLast?_append]
  cases hlast : below.getLast? with
  | none =>
    rw [List.getLast?_append, h.last]
    change some '\x7d' ≠ some '\x60'
    decide
  | some c =>
    intro heq
    cases heq
    obtain ⟨l, rfl⟩ := List.getLast?_eq_some_iff.mp hlast
    exact notMem_of_isSpace hblank (by decide : isSpace '\x60' = false) (by simp)

/-- Ticks that come right before ticks and prose begin there. -/
theorem nil_of_ticks {a w m : List Char} (ha : '\x60' ∉ a) (h : ticks ++ a = w ++ ticks ++ m) :
    w = [] := by
  have hcount := congrArg (List.count '\x60') h
  simp only [List.count_append, List.count_eq_zero.mpr ha] at hcount
  cases w with
  | nil => rfl
  | cons c w =>
    obtain ⟨rfl, -⟩ := List.cons.inj h
    rw [List.count_cons_self] at hcount
    omega

/-- Ticks that do not end before `l` does stand in it, or `l` ends with a backtick. -/
theorem ticks_of_append {x w m l a : List Char} (hl : l = x ++ w)
    (hm : ticks ++ m = w ++ (ticks ++ a)) (hw : w ≠ []) :
    ticks <:+: l ∨ l.getLast? = some '\x60' := by
  match w, hw with
  | [c], _ =>
    have hhead : ['\x60'] = [c] := congrArg (List.take 1) hm
    exact .inr (by simp [hl, ← hhead])
  | [c, d], _ =>
    have hhead : ['\x60', '\x60'] = [c, d] := congrArg (List.take 2) hm
    exact .inr (by simp [hl, ← hhead])
  | c :: d :: e :: w, _ =>
    have hhead : ticks = [c, d, e] := congrArg (List.take 3) hm
    exact .inl ⟨x, w, by simp [hl, hhead]⟩

theorem locate_fenced {calls : List Call} {before above text below after : List Char}
    (h : Written calls text) (hbefore : Prose before) (hafter : Prose after)
    (hblank : ∀ c ∈ above ++ below, isSpace c = true) (hclear : ¬ ticks <:+: text) :
    locate (String.ofList (Form.content before text after (.fenced above below))) = text := by
  obtain ⟨hfence, a, m, ha, hm⟩ :=
    exists_piece (above ++ text ++ below) hbefore hafter
  have habove : ∀ c ∈ above, isSpace c = true := fun c hc => hblank c (List.mem_append_left _ hc)
  have hbelow : ∀ c ∈ below, isSpace c = true := fun c hc => hblank c (List.mem_append_right _ hc)
  have htick : isSpace '\x60' = false := by decide
  have hmid : ¬ ticks <:+: above ++ text ++ below := by
    rintro ⟨x, y, hxy⟩
    obtain ⟨p, q, -, -, htext⟩ := parts_within (notMem_of_isSpace habove htick)
      (notMem_of_isSpace hbelow htick) h.last fence_shape.2.1 hxy
    exact hclear ⟨p, q, htext.symm⟩
  have hpiece : (piece (String.ofList (before ++ fence ++ (above ++ text ++ below) ++ ticks ++
      after))).toList = above ++ text ++ below := by
    rw [List.append_assoc, List.append_assoc (String.toList _)] at hm
    rcases List.append_eq_append_iff.mp hm with ⟨w, hw, hw'⟩ | ⟨w, hw, hw'⟩
    · rw [← List.append_assoc] at hw'
      rw [hw, nil_of_ticks ha.2.2 hw', List.append_nil]
    · by_cases hne : w = []
      · rw [hne, List.append_nil] at hw
        exact hw.symm
      · rcases ticks_of_append hw hw' hne with hin | hlast
        · exact absurd hin hmid
        · exact absurd hlast (getLast?_mid h hblank)
  have hsame : piece (String.ofList (before ++ fence ++ (above ++ text ++ below) ++ ticks ++
      after)) = String.ofList (above ++ text ++ below) :=
    String.ext (by rw [hpiece, String.toList_ofList])
  have hempty : above.dropWhile isSpace = [] ∧ below.reverse.dropWhile isSpace = [] :=
    ⟨List.dropWhile_eq_nil_iff.mpr habove,
      List.dropWhile_eq_nil_iff.mpr fun c hc => hbelow c (List.mem_reverse.mp hc)⟩
  unfold Form.content
  dsimp only
  rw [locate_of_fence hfence, hsame, strip_around h.first (by decide) h.last (by decide),
    hempty.1, hempty.2]
  simp

/-- Where ticks are in the text, only a beginning of it is read, and that is no JSON. -/
theorem loads_fenced {calls : List Call} {before above text below after : List Char}
    (h : Written calls text) (hbefore : Prose before) (hafter : Prose after)
    (hblank : ∀ c ∈ above ++ below, isSpace c = true) (hticks : ticks <:+: text) :
    loads (locate (String.ofList (Form.content before text after (.fenced above below)))) =
      none := by
  obtain ⟨hfence, a, m, ha, hm⟩ :=
    exists_piece (above ++ text ++ below) hbefore hafter
  have hnone := not_infix_piece (String.ofList (before ++ fence ++ (above ++ text ++ below) ++
    ticks ++ after))
  have habove : ∀ c ∈ above, isSpace c = true := fun c hc => hblank c (List.mem_append_left _ hc)
  unfold Form.content
  dsimp only
  rw [locate_of_fence hfence]
  generalize piece _ = part at hm hnone
  obtain ⟨w, hw⟩ : ∃ w, above ++ text = part.toList ++ '\x60' :: [] ++ w := by
    have hm' : above ++ text ++ (below ++ ticks ++ a) = part.toList ++ (ticks ++ m) := by
      simpa using hm
    rcases List.append_eq_append_iff.mp hm' with ⟨w, hw, -⟩ | ⟨w, hw, hw'⟩
    · refine absurd (hticks.trans ?_) hnone
      rw [hw]
      exact (List.suffix_append ..).isInfix.trans (List.prefix_append ..).isInfix
    · cases w with
      | nil =>
        rw [List.append_nil] at hw
        exact absurd (hticks.trans (hw ▸ (List.suffix_append ..).isInfix)) hnone
      | cons c w =>
        obtain ⟨rfl, -⟩ := List.cons.inj hw'
        exact ⟨w, by simpa using hw⟩
  obtain ⟨p, hpart, htext⟩ := prefix_of_notMem
    (notMem_of_isSpace habove (by decide : isSpace '\x60' = false)) hw.symm
  -- The beginning of the text, with its brace, is `p`.
  cases p with
  | nil =>
    rw [htext] at h
    cases h.first
  | cons c p =>
    have hc : c = '\x7b' := by
      have hfirst := h.first
      rw [htext] at hfirst
      exact Option.some.inj hfirst
    have hsame : part = String.ofList (above ++ ['\x7b'] ++ p) :=
      String.ext (by rw [hpart, hc]; simp)
    have hfound : (strip part).toList = '\x7b' :: (p.reverse.dropWhile isSpace).reverse := by
      rw [hsame, strip_around (a := '\x7b') (b := '\x7b') rfl (by decide) rfl (by decide),
        List.dropWhile_eq_nil_iff.mpr habove]
      rfl
    rw [hfound]
    by_contra hsome
    obtain ⟨v, hv⟩ := Option.ne_none_iff_exists'.mp hsome
    have hp : p = (p.reverse.dropWhile isSpace).reverse ++
        (p.reverse.takeWhile isSpace).reverse := by
      rw [← List.reverse_append, List.takeWhile_append_dropWhile, List.reverse_reverse]
    have hwhole : text = '\x7b' :: (p.reverse.dropWhile isSpace).reverse ++
        ((p.reverse.takeWhile isSpace).reverse ++ '\x60' :: w) := by
      rw [htext, hc]
      nth_rewrite 1 [hp]
      simp
    have hvalue := h.value
    rw [hwhole] at hvalue
    have hskip := blank_of_loads_append rfl hv hvalue
    have htick := List.dropWhile_eq_nil_iff.mp hskip '\x60' (by simp)
    cases htick

/-- Where a fence is in the text, what is read begins within a string. -/
theorem plainKeys_bare {calls : List Call} {before text after : List Char}
    {members : List (String × Doc)} (h : Written calls text) (hbefore : Prose before)
    (hafter : Prose after) (hfence : fence <:+: text)
    (hread : loads (locate (String.ofList (before ++ text ++ after))) = some (.dict members)) :
    PlainKeys members := by
  obtain ⟨b, a, hb, ha, hstrip⟩ := exists_strip_bare h hbefore hafter
  have hin : fence <:+: (strip (String.ofList (before ++ text ++ after))).toList := by
    rw [hstrip]
    refine hfence.trans ((List.suffix_append ..).isInfix.trans (List.prefix_append ..).isInfix)
  rw [locate_of_fence hin] at hread
  obtain ⟨⟨x, y⟩, hcut⟩ := Option.isSome_iff_exists.mp ((isSome_cutAt_iff _ _).mpr hin)
  have hparts := (cutAt_eq_some_iff.mp hcut).parts
  rw [hstrip] at hparts
  obtain ⟨p, q, -, rfl, htext⟩ := parts_within hb.2.2 ha.2.2 h.last fence_shape.1 hparts.symm
  have hafter' : (texts.after (strip (String.ofList (before ++ text ++ after)))
      (String.ofList fence)).toList = q ++ a := by
    unfold texts.after
    rw [fence_shape.2.2.1, hcut]
    exact String.toList_ofList
  -- The piece is a beginning of what comes after the fence.
  obtain ⟨m, hm⟩ : (piece (String.ofList (before ++ text ++ after))).toList <+: q ++ a := by
    rw [← hafter']
    exact piece_prefix _
  obtain ⟨l, r, hl, hblank⟩ := exists_strip (piece (String.ofList (before ++ text ++ after)))
  rw [hl] at hm
  have hgap : ∀ c ∈ '\x60' :: '\x60' :: "json".toList ++ l,
      c ≠ jsons.quote ∧ c ≠ jsons.backslash := by
    intro c hc
    rcases List.mem_append.mp hc with hc | hc
    · have hplain : ('\x60' :: '\x60' :: "json".toList).all
          (fun d => d ≠ jsons.quote ∧ d ≠ jsons.backslash) = true := by decide
      exact of_decide_eq_true (List.all_eq_true.mp hplain c hc)
    · constructor
      · rintro rfl
        exact notMem_of_isSpace hblank (by decide) hc
      · rintro rfl
        exact notMem_of_isSpace hblank (by decide) hc
  have htext' : text = p ++ '\x60' :: ('\x60' :: '\x60' :: "json".toList ++ q) := by
    rw [htext, List.append_assoc]
    rfl
  refine plainKeys_of_cut h.value htext' hgap (z := r ++ m) ?_ ha.2.1 hread
  rw [List.append_assoc, ← hm]
  simp

theorem lookup_plain {members : List (String × Doc)} (h : PlainKeys members) :
    members.lookup "tool_calls" = none := by
  rw [List.lookup_eq_none_iff]
  intro m hm
  rw [bne_iff_ne]
  intro hkey
  have hmember := h m hm '_' (by rw [← hkey]; decide)
  cases hmember

/-! ## Answers -/

section

variable {Raw : Type} {provider : Request → Except Raised (LLMResponse Raw)}
  {request : Request} {response : LLMResponse Raw}

theorem execute_eq (hvalid : ∀ repr, request.outputType ≠ some (.other repr))
    (hanswer : provider request.asked = .ok response) (hex : Nat → String) :
    execute provider hex request = .ok (parsePromptedResponse hex response request.tools) := by
  unfold execute
  split
  · rename_i repr heq
    exact absurd heq (hvalid repr)
  · rw [hanswer]
    rfl

theorem parse_content (hex : Nat → String) (tools : Option (List Doc)) :
    (parsePromptedResponse hex response tools).content = response.content := by
  unfold parsePromptedResponse
  split
  · rfl
  · split
    · rfl
    · split <;> rfl

/-- The calls of the result are the response's own or those that are read. -/
theorem parse_calls {content : String} (hcontent : response.content = some content)
    (hcalls : response.toolCalls = []) (hex : Nat → String) (tools : Option (List Doc)) :
    (parsePromptedResponse hex response tools).calls =
      if content = "" then []
      else (((loads (locate content)).bind (extract hex tools)).getD []).map ToolCall.call := by
  unfold parsePromptedResponse LLMResponse.calls
  rw [hcontent]
  dsimp only
  split
  · rw [hcalls]
    rfl
  · split
    · rename_i calls heq
      rw [heq]
      rfl
    · rename_i heq
      rw [heq, hcalls]
      rfl

theorem parse_whole {content : String} (hcontent : response.content = some content)
    (hcalls : response.toolCalls = []) (hex : Nat → String) (tools : Option (List Doc)) :
    Whole content.toList (parsePromptedResponse hex response tools).calls := by
  rw [parse_calls hcontent hcalls]
  split
  · exact .inl rfl
  · cases hread : loads (locate content) with
    | none => exact .inl rfl
    | some data =>
      cases hextract : extract hex tools data with
      | none =>
        left
        rw [Option.bind_some, hextract]
        rfl
      | some calls =>
        rw [Option.bind_some, hextract, Option.getD_some]
        by_cases hne : calls = []
        · left
          rw [hne]
          rfl
        · exact .inr ⟨_, data, locate_infix content, hread, lists_of_extract hextract hne⟩

theorem content_ne {calls : List Call} {before text after : List Char} (h : Written calls text)
    (form : Form) : String.ofList (form.content before text after) ≠ "" := by
  intro heq
  have hlist := congrArg String.toList heq
  rw [String.toList_ofList] at hlist
  obtain ⟨t, rfl⟩ := List.head?_eq_some_iff.mp h.first
  cases form <;> simp [Form.content] at hlist

theorem parse_of_clear {form : Form} {calls : List Call} {before text after : List Char}
    (hcontent : response.content = some (String.ofList (form.content before text after)))
    (hcalls : response.toolCalls = []) (h : Written calls text) (hbefore : Prose before)
    (hafter : Prose after) (hblank : form.Blank) (hclear : form.Clear text) (hex : Nat → String)
    {tools : Option (List Doc)} (htools : Given tools) :
    (parsePromptedResponse hex response tools).calls = calls := by
  have hlocate : locate (String.ofList (form.content before text after)) = text := by
    cases form with
    | bare => exact locate_bare h hbefore hafter hclear
    | fenced above below => exact locate_fenced h hbefore hafter hblank hclear
  obtain ⟨found, hfound, rfl⟩ := extract_object htools hex calls
  rw [parse_calls hcontent hcalls, if_neg (content_ne h form), hlocate, h.value, Option.bind_some,
    hfound]
  rfl

theorem parse_of_not_clear {form : Form} {calls : List Call} {before text after : List Char}
    (hcontent : response.content = some (String.ofList (form.content before text after)))
    (hcalls : response.toolCalls = []) (h : Written calls text) (hbefore : Prose before)
    (hafter : Prose after) (hblank : form.Blank) (hclear : ¬ form.Clear text) (hex : Nat → String)
    (tools : Option (List Doc)) : (parsePromptedResponse hex response tools).calls = [] := by
  rw [parse_calls hcontent hcalls, if_neg (content_ne h form)]
  cases hread : loads (locate (String.ofList (form.content before text after))) with
  | none => rfl
  | some data =>
    by_contra hne
    rw [Option.bind_some] at hne
    cases hextract : extract hex tools data with
    | none =>
      rw [hextract] at hne
      exact hne rfl
    | some found =>
      rw [hextract, Option.getD_some] at hne
      obtain ⟨members, items, rfl, hlookup, -⟩ :=
        lists_of_extract hextract fun hnil => hne (by rw [hnil]; rfl)
      cases form with
      | bare =>
        have hplain := plainKeys_bare h hbefore hafter (Classical.not_not.mp hclear) hread
        rw [lookup_plain hplain] at hlookup
        cases hlookup
      | fenced above below =>
        rw [loads_fenced h hbefore hafter hblank (Classical.not_not.mp hclear)] at hread
        cases hread

/-- No answer makes it raise or gives a part of a list of calls, and calls that are written in
prose or in a fence are all recovered just where their text does not hold the marker that the
search looks for. -/
theorem recovered_iff_clear (hvalid : ∀ repr, request.outputType ≠ some (.other repr))
    (htools : Given request.tools) (hanswer : provider request.asked = .ok response)
    (hcalls : response.toolCalls = []) (hex : Nat → String) :
    (∃ result, execute provider hex request = .ok result ∧ result.content = response.content ∧
      Whole (response.content.getD "").toList result.calls) ∧
    ∀ form calls before text after,
      response.content = some (String.ofList (Form.content before text after form)) →
      calls ≠ [] → Written calls text → Prose before → Prose after → form.Blank →
      ((∃ result, execute provider hex request = .ok result ∧ result.calls = calls ∧
        result.content = response.content) ↔ form.Clear text) := by
  have hexecute := execute_eq hvalid hanswer hex
  constructor
  · refine ⟨_, hexecute, parse_content hex request.tools, ?_⟩
    cases hcontent : response.content with
    | none =>
      left
      unfold parsePromptedResponse LLMResponse.calls
      rw [hcontent]
      dsimp only
      rw [hcalls]
      rfl
    | some content => exact parse_whole hcontent hcalls hex request.tools
  · intro form calls before text after hcontent hne hwritten hbefore hafter hblank
    constructor
    · rintro ⟨result, hresult, hrecovered, -⟩
      by_contra hclear
      rw [hexecute] at hresult
      cases hresult
      rw [parse_of_not_clear hcontent hcalls hwritten hbefore hafter hblank hclear] at hrecovered
      exact hne hrecovered.symm
    · intro hclear
      exact ⟨_, hexecute,
        parse_of_clear hcontent hcalls hwritten hbefore hafter hblank hclear hex htools,
        parse_content hex request.tools⟩

end

/-! ## Two calls -/

def ask : Request := ⟨[], none, some [.dict []], 7 / 10, none, none⟩

/-- An answer with a text and no native calls. -/
def answer (text : List Char) : LLMResponse Unit :=
  ⟨some (String.ofList text), [], .stop, none, "", none⟩

def answers (text : List Char) (_ : Request) : Except Raised (LLMResponse Unit) :=
  .ok (answer text)

theorem ask_valid (repr : String) : ask.outputType ≠ some (.other repr) := nofun

/-- The text of a call of `note` with the letters of a text. -/
def noteText (letters : List Char) : List Char :=
  "\x7b\"tool_calls\": [\x7b\"name\": \"note\", \"arguments\": \x7b\"text\": \"".toList ++
    letters ++ "\"\x7d\x7d]\x7d".toList

theorem a_note_is_written : Written [("note", [("text", .str "hi")])] (noteText ['h', 'i']) :=
  ⟨by decide +kernel, by decide +kernel, by decide +kernel⟩

theorem a_fence_is_written :
    Written [("note", [("text", .str (String.ofList fence))])] (noteText fence) :=
  ⟨by decide +kernel, by decide +kernel, by decide +kernel⟩

theorem a_note_is_recovered :
    ∃ result, execute (answers (noteText ['h', 'i'])) (fun _ => "") ask = .ok result ∧
      result.calls = [("note", [("text", .str "hi")])] ∧
      result.content = (answer (noteText ['h', 'i'])).content := by
  have hanswer : answers (noteText ['h', 'i']) ask.asked = .ok (answer (noteText ['h', 'i'])) := rfl
  have hnone : Prose [] := ⟨List.not_mem_nil, List.not_mem_nil, List.not_mem_nil⟩
  have hclear : Form.Clear (noteText ['h', 'i']) .bare := by
    change ¬ fence <:+: noteText ['h', 'i']
    decide +kernel
  have h := (recovered_iff_clear ask_valid ⟨.dict [], [], rfl⟩ hanswer rfl fun _ => "").2 .bare
    [("note", [("text", .str "hi")])] [] (noteText ['h', 'i']) []
  refine (h ?_ (List.cons_ne_nil _ _) a_note_is_written hnone hnone trivial).mpr hclear
  simp [Form.content, answer]

theorem a_fence_in_an_argument_loses_the_call :
    Written [("note", [("text", .str (String.ofList fence))])] (noteText fence) ∧
    (∃ result, execute (answers (noteText fence)) (fun _ => "") ask = .ok result ∧
      result.calls = []) ∧
    ∃ result, execute (answers (Form.content [] (noteText fence) [] (.fenced ['\n'] ['\n'])))
      (fun _ => "") ask = .ok result ∧ result.calls = [] :=
  ⟨a_fence_is_written, ⟨_, execute_eq ask_valid rfl _, by decide +kernel⟩,
    _, execute_eq ask_valid rfl _, by decide +kernel⟩

end orchestra.prompted_tools
