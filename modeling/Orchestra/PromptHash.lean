-- The hash of a prompt (`hash_messages` of `providers/replay.py`): what of a list of messages
-- is hashed, and which lists cannot be told apart by it.
import Orchestra.Agent
import Orchestra.Commitments

open dicts jsons codes

namespace orchestra.prompt_hash

open orchestra.commitments

/-! ## Messages -/

inductive MessageRole
  | system
  | user
  | assistant
  | tool
deriving DecidableEq, Repr

def MessageRole.value : MessageRole → String
  | .system => "system"
  | .user => "user"
  | .assistant => "assistant"
  | .tool => "tool"

/-- The text of a float in JSON. -/
structure FloatText where
  text : String
  printed : ∀ c ∈ text.toList, Printed c

/-- A value in an attachment. `other` is a value that JSON does not have, by its `str`. -/
inductive Datum
  | null
  | bool (b : Bool)
  | int (i : Int)
  | float (x : FloatText)
  | str (s : String)
  | arr (items : List Datum)
  | obj (members : List (String × Datum))
  | other (text : String)

structure Message where
  role : MessageRole
  content : String
  name : Option String
  toolCallId : Option String
  toolCalls : Option (List agent.ToolCall)
  attachments : Option (List (Dict String Datum))
  metadata : Dict String Datum

/-! ## The text of an attachment -/

mutual

/-- `sort_keys=True` -/
def sorted : Datum → Datum
  | .arr items => .arr (sortedItems items)
  | .obj members => .obj (sortByKey (sortedMembers members))
  | value => value

def sortedItems : List Datum → List Datum
  | [] => []
  | item :: items => sorted item :: sortedItems items

def sortedMembers : List (String × Datum) → List (String × Datum)
  | [] => []
  | (key, value) :: members => (key, sorted value) :: sortedMembers members

end

mutual

/-- `json.dumps(value, default=str)` -/
def write : Datum → List Char
  | .null => ['n', 'u', 'l', 'l']
  | .bool true => ['t', 'r', 'u', 'e']
  | .bool false => ['f', 'a', 'l', 's', 'e']
  | .int i => writeInt i
  | .float x => x.text.toList
  | .str s => writeString s
  | .other text => writeString text
  | .arr items => '[' :: (writeItems items ++ [']'])
  | .obj members => '\x7b' :: (writeMembers members ++ ['\x7d'])

def writeItems : List Datum → List Char
  | [] => []
  | [item] => write item
  | item :: next :: items => write item ++ ',' :: ' ' :: writeItems (next :: items)

def writeMembers : List (String × Datum) → List Char
  | [] => []
  | [(key, value)] => writeString key ++ ':' :: ' ' :: write value
  | (key, value) :: next :: members =>
    writeString key ++ ':' :: ' ' :: (write value ++ ',' :: ' ' :: writeMembers (next :: members))

end

/-- `json.dumps(a, sort_keys=True, default=str)` -/
def dumps (a : Dict String Datum) : List Char := write (sorted (.obj a.entries))

mutual

theorem printed_write (d : Datum) : ∀ c ∈ write d, Printed c := by
  match d with
  | .null =>
    simp only [write, List.forall_mem_cons, List.not_mem_nil, false_imp_iff, implies_true]
    decide
  | .bool true =>
    simp only [write, List.forall_mem_cons, List.not_mem_nil, false_imp_iff, implies_true]
    decide
  | .bool false =>
    simp only [write, List.forall_mem_cons, List.not_mem_nil, false_imp_iff, implies_true]
    decide
  | .int i => exact printed_writeInt i
  | .float x => exact x.printed
  | .str s => exact printed_writeString s
  | .other text => exact printed_writeString text
  | .arr items =>
    have hitems := printed_writeItems items
    intro c hc
    simp only [write, List.mem_cons, List.mem_append, List.not_mem_nil, or_false] at hc
    rcases hc with rfl | hc | rfl
    · decide
    · exact hitems c hc
    · decide
  | .obj members =>
    have hmembers := printed_writeMembers members
    intro c hc
    simp only [write, List.mem_cons, List.mem_append, List.not_mem_nil, or_false] at hc
    rcases hc with rfl | hc | rfl
    · decide
    · exact hmembers c hc
    · decide

theorem printed_writeItems (items : List Datum) : ∀ c ∈ writeItems items, Printed c := by
  match items with
  | [] => simp [writeItems]
  | [item] => exact printed_write item
  | item :: next :: items =>
    have hfirst := printed_write item
    have hrest := printed_writeItems (next :: items)
    intro c hc
    simp only [writeItems, List.mem_cons, List.mem_append] at hc
    rcases hc with hc | rfl | rfl | hc
    · exact hfirst c hc
    · decide
    · decide
    · exact hrest c hc

theorem printed_writeMembers (members : List (String × Datum)) :
    ∀ c ∈ writeMembers members, Printed c := by
  match members with
  | [] => simp [writeMembers]
  | [(key, value)] =>
    have hkey := printed_writeString key
    have hvalue := printed_write value
    intro c hc
    simp only [writeMembers, List.mem_cons, List.mem_append] at hc
    rcases hc with hc | rfl | rfl | hc
    · exact hkey c hc
    · decide
    · decide
    · exact hvalue c hc
  | (key, value) :: next :: members =>
    have hkey := printed_writeString key
    have hvalue := printed_write value
    have hrest := printed_writeMembers (next :: members)
    intro c hc
    simp only [writeMembers, List.mem_cons, List.mem_append] at hc
    rcases hc with hc | rfl | rfl | hc | rfl | rfl | hc
    · exact hkey c hc
    · decide
    · decide
    · exact hvalue c hc
    · decide
    · decide
    · exact hrest c hc

end

/-! ## What is hashed -/

/-- `b"\x00"` -/
def stop : Char := Char.ofNat 0

/-- The updates of the hash for one message. -/
def hashed (m : Message) : List Char :=
  m.role.value.toList ++ [stop] ++ m.content.toList ++ [stop] ++
    (m.attachments.getD []).flatMap (fun a => dumps a ++ [stop])

/-- `hash_messages`, in hexadecimal digits. -/
def hashMessages (sha256 : Bytes → String) (messages : List Message) : String :=
  sha256 (encodeUtf8 (messages.flatMap hashed))

/-- The texts that a message is hashed as: its role, its content, cut at each NUL, and its
attachments. -/
def piecesOf (m : Message) : List (List Char) :=
  m.role.value.toList :: (splitAtStops stop m.content.toList ++ (m.attachments.getD []).map dumps)

def pieces (messages : List Message) : List (List Char) := messages.flatMap piecesOf

theorem stop_not_mem_of_printed {l : List Char} (h : ∀ c ∈ l, Printed c) : stop ∉ l := by
  intro hmem
  exact absurd (h stop hmem) (by decide)

theorem stop_not_mem_pieces (messages : List Message) : ∀ p ∈ pieces messages, stop ∉ p := by
  intro p hp
  obtain ⟨m, -, hp⟩ := List.mem_flatMap.mp hp
  rcases List.mem_cons.mp hp with rfl | hp
  · rcases m.role with _ | _ | _ | _ <;> decide
  rcases List.mem_append.mp hp with hp | hp
  · exact stop_not_mem_splitAtStops stop _ p hp
  · obtain ⟨a, -, rfl⟩ := List.mem_map.mp hp
    exact stop_not_mem_of_printed (printed_write _)

theorem hashed_eq (m : Message) : hashed m = piecesCode stop (piecesOf m) := by
  have hcontent := piecesCode_splitAtStops stop m.content.toList
  unfold piecesCode at hcontent
  simp only [hashed, piecesOf, piecesCode, List.flatMap_cons, List.flatMap_append, hcontent,
    List.flatMap_map, List.append_assoc]

theorem flatMap_hashed (messages : List Message) :
    messages.flatMap hashed = piecesCode stop (pieces messages) := by
  unfold pieces piecesCode
  rw [List.flatMap_assoc]
  exact List.flatMap_congr fun m _ => hashed_eq m

/-- Two prompts have one hash just when they are hashed as the same texts. -/
theorem hashMessages_eq_iff {sha256 : Bytes → String} (hsha : Function.Injective sha256)
    (ms ns : List Message) :
    hashMessages sha256 ms = hashMessages sha256 ns ↔ pieces ms = pieces ns := by
  constructor
  · intro h
    have htext := encodeUtf8_injective (hsha h)
    rw [flatMap_hashed, flatMap_hashed] at htext
    exact piecesCode_inj (stop_not_mem_pieces ms) (stop_not_mem_pieces ns) htext
  · intro h
    unfold hashMessages
    rw [flatMap_hashed, flatMap_hashed, h]

/-! ## Messages without NUL -/

/-- What is hashed of a message: its role, its content and the JSON texts of its attachments. -/
def shown (m : Message) : MessageRole × List Char × List (List Char) :=
  (m.role, m.content.toList, (m.attachments.getD []).map dumps)

/-- The text of an attachment begins with a brace, and no role does. -/
def IsAttachment (piece : List Char) : Prop := piece.head? = some '\x7b'

instance (piece : List Char) : Decidable (IsAttachment piece) := inferInstanceAs (Decidable (_ = _))

theorem isAttachment_dumps (a : Dict String Datum) : IsAttachment (dumps a) := by
  unfold IsAttachment dumps
  simp [sorted, write]

theorem not_isAttachment_role (r : MessageRole) : ¬ IsAttachment r.value.toList := by
  cases r <;> decide

theorem role_inj {r s : MessageRole} (h : r.value.toList = s.value.toList) : r = s := by
  cases r <;> cases s <;> first | rfl | exact absurd h (by decide)

theorem head_pieces (messages : List Message) :
    ∀ p, (pieces messages).head? = some p → ¬ IsAttachment p := by
  cases messages with
  | nil => simp [pieces]
  | cons m rest =>
    rintro p ⟨⟩
    exact not_isAttachment_role m.role

theorem piecesOf_plain {m : Message} (hm : stop ∉ m.content.toList) : piecesOf m =
    m.role.value.toList :: m.content.toList :: (m.attachments.getD []).map dumps := by
  unfold piecesOf
  rw [splitAtStops_of_not_mem hm]
  rfl

/-- Without NUL in their contents, two prompts have one hash just when they have the same roles,
contents and attachments. -/
theorem hashMessages_plain_iff {sha256 : Bytes → String} (hsha : Function.Injective sha256)
    {ms ns : List Message} (hms : ∀ m ∈ ms, stop ∉ m.content.toList)
    (hns : ∀ n ∈ ns, stop ∉ n.content.toList) :
    hashMessages sha256 ms = hashMessages sha256 ns ↔ ms.map shown = ns.map shown := by
  rw [hashMessages_eq_iff hsha]
  induction ms generalizing ns with
  | nil => cases ns <;> simp [pieces, piecesOf]
  | cons m ms ih =>
    cases ns with
    | nil => simp [pieces, piecesOf]
    | cons n ns =>
      obtain ⟨hm, hms⟩ := List.forall_mem_cons.mp hms
      obtain ⟨hn, hns⟩ := List.forall_mem_cons.mp hns
      have hpieces (k : Message) (rest : List Message) :
          pieces (k :: rest) = piecesOf k ++ pieces rest := List.flatMap_cons
      have hattached (k : Message) :
          ∀ p ∈ (k.attachments.getD []).map dumps, IsAttachment p := by
        intro p hp
        obtain ⟨a, -, rfl⟩ := List.mem_map.mp hp
        exact isAttachment_dumps a
      rw [hpieces, hpieces, piecesOf_plain hm, piecesOf_plain hn]
      simp only [List.map_cons, List.cons.injEq, shown, Prod.mk.injEq, ← ih hms hns,
        List.cons_append]
      constructor
      · rintro ⟨hrole, hcontent, hrest⟩
        obtain ⟨hattachments, hlater⟩ := append_inj_of_kind (hattached m) (hattached n)
          (head_pieces ms) (head_pieces ns) hrest
        exact ⟨⟨role_inj hrole, hcontent, hattachments⟩, hlater⟩
      · rintro ⟨⟨hrole, hcontent, hattachments⟩, hlater⟩
        rw [hrole, hcontent, hattachments, hlater]
        exact ⟨rfl, rfl, rfl⟩

end orchestra.prompt_hash
