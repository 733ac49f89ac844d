-- Codecs of values and of records: what was written is read back as it was. The fields of a
-- record stand under their names, in any order and beside other entries.
import Orchestra.Lib.Dict

open dicts

namespace records

variable {κ V ε α β : Type}

/-! ## Codecs -/

/-- A way to write a value, and to read it back. -/
structure Codec (V ε α : Type) where
  dump : α → V
  parse : V → Except ε α
  parse_dump : ∀ a, parse (dump a) = .ok a

attribute [simp] Codec.parse_dump

namespace Codec

/-- The same texts for another type. -/
def iso (codec : Codec V ε α) (pack : α → β) (unpack : β → α)
    (inverse : ∀ b, pack (unpack b) = b) : Codec V ε β where
  dump b := codec.dump (unpack b)
  parse v := (codec.parse v).map pack
  parse_dump b := by simp [Except.map, inverse]

/-- Only the values with a property. -/
def refine (codec : Codec V ε α) (legal : α → Prop) [DecidablePred legal] (illegal : ε) :
    Codec V ε { a : α // legal a } where
  dump a := codec.dump a.val
  parse v := (codec.parse v).bind (fun a => if h : legal a then .ok ⟨a, h⟩ else .error illegal)
  parse_dump a := by simp [Except.bind, a.property]

/-- A value, or the one that stands for none. -/
def option [DecidableEq V] (codec : Codec V ε α) (null : V) (h : ∀ a, codec.dump a ≠ null) :
    Codec V ε (Option α) where
  dump
    | none => null
    | some a => codec.dump a
  parse v := if v = null then .ok none else (codec.parse v).map some
  parse_dump
    | none => by simp
    | some a => by simp [h a, Except.map]

/-- One of a few names. -/
def names [DecidableEq κ] (codec : Codec V ε κ) (options : List (κ × α)) (name : α → κ)
    (unknown : ε) (h : ∀ a, options.lookup (name a) = some a) : Codec V ε α where
  dump a := codec.dump (name a)
  parse v := (codec.parse v).bind (fun k => (options.lookup k).elim (.error unknown) .ok)
  parse_dump a := by simp [Except.bind, h a]

/-- Each item of a list. -/
def parseAll (codec : Codec V ε α) : List V → Except ε (List α)
  | [] => .ok []
  | v :: rest => do
    let a ← codec.parse v
    let later ← codec.parseAll rest
    .ok (a :: later)

@[simp] theorem parseAll_dump (codec : Codec V ε α) (items : List α) :
    codec.parseAll (items.map codec.dump) = .ok items := by
  induction items with
  | nil => rfl
  | cons a rest ih => simp [parseAll, ih, bind, Except.bind]

end Codec

/-! ## The containers -/

/-- How lists and dicts stand among the values. -/
structure Containers (κ V ε : Type) where
  list : Codec V ε (List V)
  dict : Codec V ε (List (κ × V))

namespace Containers

variable (C : Containers κ V ε)

def listOf (codec : Codec V ε α) : Codec V ε (List α) where
  dump items := C.list.dump (items.map codec.dump)
  parse v := (C.list.parse v).bind codec.parseAll
  parse_dump items := by simp [Except.bind]

/-- The entries of a dict with values of one type. -/
def parseEntries (codec : Codec V ε α) : List (κ × V) → Except ε (List (κ × α))
  | [] => .ok []
  | (k, v) :: rest => do
    let a ← codec.parse v
    let later ← parseEntries codec rest
    .ok ((k, a) :: later)

/-- The entries of a dict, each with its value written. -/
def dumpEntries (codec : Codec V ε α) (entries : List (κ × α)) : List (κ × V) :=
  entries.map (fun e => (e.1, codec.dump e.2))

theorem parseEntries_dump (codec : Codec V ε α) (entries : List (κ × α)) :
    parseEntries codec (dumpEntries codec entries) = .ok entries := by
  induction entries with
  | nil => rfl
  | cons e rest ih =>
    unfold dumpEntries at ih ⊢
    simp [parseEntries, ih, bind, Except.bind]

theorem keys_dumpEntries (codec : Codec V ε α) (entries : List (κ × α)) :
    (dumpEntries codec entries).map Prod.fst = entries.map Prod.fst := by
  unfold dumpEntries
  rw [List.map_map]
  rfl

/-- A dict with the same keys, each with its value written. -/
def dumpDict (codec : Codec V ε α) (d : Dict κ α) : Dict κ V :=
  ⟨dumpEntries codec d.entries, by rw [keys_dumpEntries]; exact d.nodup⟩

def dictOf [DecidableEq κ] (codec : Codec V ε α) : Codec V ε (Dict κ α) where
  dump d := C.dict.dump (dumpDict codec d).entries
  parse v := ((C.dict.parse v).bind (parseEntries codec)).map Dict.ofList
  parse_dump d := by simp [Except.bind, Except.map, dumpDict, parseEntries_dump]

theorem dumpDict_set [DecidableEq κ] (codec : Codec V ε α) (d : Dict κ α) (k : κ) (a : α) :
    (dumpDict codec d).set k (codec.dump a) = dumpDict codec (d.set k a) := by
  apply Dict.ext_entries
  show setEntries k (codec.dump a) (dumpEntries codec d.entries) =
    dumpEntries codec (setEntries k a d.entries)
  induction d.entries with
  | nil => rfl
  | cons e rest ih =>
    unfold dumpEntries at ih ⊢
    simp only [List.map_cons, setEntries, ih]
    split <;> rfl

/-- A dict is written after an update as it is updated after it was written. -/
theorem dumpDict_update [DecidableEq κ] (codec : Codec V ε α) (d e : Dict κ α) :
    (dumpDict codec d).setAll (dumpDict codec e).entries = dumpDict codec (d.update e) := by
  show (dumpDict codec d).setAll (dumpEntries codec e.entries) = dumpDict codec (d.setAll e.entries)
  generalize e.entries = es
  induction es generalizing d with
  | nil => rfl
  | cons entry rest ih =>
    have hset := dumpDict_set codec d entry.1 entry.2
    have hrest := ih (d.set entry.1 entry.2)
    rw [← hset] at hrest
    exact hrest

end Containers

/-! ## The fields of a record -/

/-- The fields of a record: what they write, and how they are read out of a list of entries.
Only the entries under their own names are read. -/
structure Fields (κ V ε α : Type) [DecidableEq κ] where
  names : List κ
  dump : α → List (κ × V)
  parse : List (κ × V) → Except ε α
  nodup : names.Nodup
  names_dump : ∀ a, (dump a).map Prod.fst = names
  parse_dump : ∀ a, parse (dump a) = .ok a
  parse_congr : ∀ es es' : List (κ × V), (∀ k ∈ names, es.lookup k = es'.lookup k) →
    parse es = parse es'

namespace Fields

variable [DecidableEq κ]

def nil : Fields κ V ε Unit where
  names := []
  dump _ := []
  parse _ := .ok ()
  nodup := List.nodup_nil
  names_dump _ := rfl
  parse_dump _ := rfl
  parse_congr _ _ _ := rfl

/-- A field before others. `absent` is for entries without its name. -/
def cons (name : κ) (codec : Codec V ε α) (absent : Except ε α) (rest : Fields κ V ε β)
    (fresh : name ∉ rest.names) : Fields κ V ε (α × β) where
  names := name :: rest.names
  dump r := (name, codec.dump r.1) :: rest.dump r.2
  parse es := do
    let a ← (es.lookup name).elim absent codec.parse
    let b ← rest.parse es
    .ok (a, b)
  nodup := List.nodup_cons.mpr ⟨fresh, rest.nodup⟩
  names_dump r := by simp [rest.names_dump]
  parse_dump r := by
    have hrest : rest.parse ((name, codec.dump r.1) :: rest.dump r.2) = .ok r.2 := by
      rw [← rest.parse_dump r.2]
      apply rest.parse_congr
      intro k hk
      have hne : (k == name) = false := by
        have : k ≠ name := fun heq => fresh (heq ▸ hk)
        simpa using this
      rw [List.lookup_cons, hne]
    simp [hrest, bind, Except.bind]
  parse_congr es es' h := by
    have hrest := rest.parse_congr es es' (fun k hk => h k (List.mem_cons_of_mem _ hk))
    rw [h name List.mem_cons_self, hrest]

/-- The same fields for another type. -/
def iso (F : Fields κ V ε α) (pack : α → β) (unpack : β → α)
    (inverse : ∀ b, pack (unpack b) = b) : Fields κ V ε β where
  names := F.names
  dump b := F.dump (unpack b)
  parse es := (F.parse es).map pack
  nodup := F.nodup
  names_dump b := F.names_dump (unpack b)
  parse_dump b := by simp [F.parse_dump, Except.map, inverse]
  parse_congr es es' h := by rw [F.parse_congr es es' h]

/-- A field is read, and then the others. -/
theorem parse_cons {name : κ} {codec : Codec V ε α} {absent : Except ε α} {rest : Fields κ V ε β}
    {fresh : name ∉ rest.names} {es : List (κ × V)} {a : α} {b : β}
    (ha : (es.lookup name).elim absent codec.parse = .ok a) (hb : rest.parse es = .ok b) :
    (cons name codec absent rest fresh).parse es = .ok (a, b) := by
  simp [cons, ha, hb, bind, Except.bind]

theorem parse_iso {F : Fields κ V ε α} {pack : α → β} {unpack : β → α}
    {inverse : ∀ b, pack (unpack b) = b} {es : List (κ × V)} {a : α} (h : F.parse es = .ok a) :
    (F.iso pack unpack inverse).parse es = .ok (pack a) := by
  simp [iso, h, Except.map]

/-- A record is a dict with its fields. -/
def codec (F : Fields κ V ε α) (C : Containers κ V ε) : Codec V ε α where
  dump a := C.dict.dump (F.dump a)
  parse v := (C.dict.parse v).bind F.parse
  parse_dump a := by simp [Except.bind, F.parse_dump]

/-- The fields of a record as a dict. -/
def dict (F : Fields κ V ε α) (a : α) : Dict κ V :=
  ⟨F.dump a, by rw [F.names_dump]; exact F.nodup⟩

@[simp] theorem keys_dict (F : Fields κ V ε α) (a : α) : (F.dict a).keys = F.names :=
  F.names_dump a

@[simp] theorem parse_dict (F : Fields κ V ε α) (a : α) : F.parse (F.dict a).entries = .ok a :=
  F.parse_dump a

/-- An entry that is no field is not read. -/
theorem parse_set (F : Fields κ V ε α) (d : Dict κ V) {k : κ} (v : V) (hk : k ∉ F.names) :
    F.parse (d.set k v).entries = F.parse d.entries := by
  apply F.parse_congr
  intro j hj
  have hne : k ≠ j := fun heq => hk (heq ▸ hj)
  exact Dict.get?_set_ne d v hne

end Fields

end records
