-- The cold tier of the memory, shared by agents: the points of a collection
-- (`qdrant_backend.py`) and the rows of a table (`vector_store.py`). Both keep an entry
-- under its key alone and store the text of a value.
import Orchestra.Coding
import Orchestra.Lib.Sharing

open dicts machine sharing orchestra.coding

namespace orchestra.cold_tiers

/-- The values of a program, with what the backends call on them: `None`, `str`, a string as
a value, `json.loads` and the two ways of a `StateCompressor`. A call without a result raises. -/
structure Values (V : Type) where
  none : V
  str : V → String
  ofString : String → V
  loads : String → Option V
  compress : V → Option (List UInt8)
  decompress : List UInt8 → Option V
  str_ofString : ∀ s, str (ofString s) = s

variable {V : Type} (values : Values V)

/-! ## Qdrant -/

/-- The payload of a point. The vector and the empty `meta` are left out. -/
structure Payload where
  key : String
  agentId : String
  content : String
  embeddingModel : Option String
deriving DecidableEq

structure QdrantColdBackend where
  agentId : String
  embeddingModel : Option String

/-- The points of a collection, by their ids. -/
abbrev Collection := Dict String Payload

namespace QdrantColdBackend

/-- `uuid.uuid5(uuid.NAMESPACE_DNS, key)` -/
def keyToPointId (uuid5 : String → String) (key : String) : String := uuid5 key

variable (uuid5 : String → String)

def store (b : QdrantColdBackend) (key : String) (value : V) (points : Collection) : Collection :=
  points.set (keyToPointId uuid5 key) ⟨key, b.agentId, values.str value, b.embeddingModel⟩

/-- A stored model of another name is logged, and the content is returned all the same. -/
def retrieve (key : String) (points : Collection) : V :=
  match points.get? (keyToPointId uuid5 key) with
  | none => values.none
  | some payload => values.ofString payload.content

def delete (key : String) (points : Collection) : Collection :=
  points.erase (keyToPointId uuid5 key)

end QdrantColdBackend

/-- The agents on one collection. Each has its own backend, with its id and its model. -/
def qdrant (uuid5 : String → String) (embeddingModel : String → Option String) :
    Backend Collection String String V where
  init := .empty
  nothing := values.none
  store agentId key value points :=
    some (QdrantColdBackend.store values uuid5 ⟨agentId, embeddingModel agentId⟩ key value points)
  retrieve _ key points := (points, some (QdrantColdBackend.retrieve values uuid5 key points))
  delete _ key points := QdrantColdBackend.delete uuid5 key points

/-- A point holds the text of a value. -/
def qdrantCells (uuid5 : String → String) (embeddingModel : String → Option String) :
    Cells String String (qdrant values uuid5 embeddingModel) where
  cell points pointId := (points.get? pointId).map (·.content)
  place := QdrantColdBackend.keyToPointId uuid5
  encode _ value := some (values.str value)
  decode _ content := some (values.ofString content)
  cell_init _ := rfl
  store_none := by simp
  store_some := by
    rintro agentId key value points content ⟨⟩
    refine ⟨_, rfl, fun pointId => ?_⟩
    unfold QdrantColdBackend.store
    rw [Dict.get?_set]
    split <;> rfl
  cell_retrieve _ _ _ := rfl
  retrieve_none := by
    intro agentId key points h
    simp only [Option.map_eq_none_iff] at h
    simp [qdrant, QdrantColdBackend.retrieve, h]
  retrieve_some := by
    intro agentId key points content h
    obtain ⟨payload, hget, rfl⟩ := Option.map_eq_some_iff.mp h
    simp [qdrant, QdrantColdBackend.retrieve, hget]
  cell_delete := by
    intro agentId key points pointId
    simp only [qdrant, QdrantColdBackend.delete, Dict.get?_erase]
    split <;> rfl

/-- Of what is stored in a collection, just the strings come back. -/
theorem qdrant_comes_back_iff (uuid5 : String → String) (embeddingModel : String → Option String)
    (agentId content : String) (value : V)
    (h : (qdrantCells values uuid5 embeddingModel).encode agentId value = some content) :
    (qdrantCells values uuid5 embeddingModel).decode agentId content = some value ↔
      ∃ s, value = values.ofString s := by
  obtain rfl : values.str value = content := Option.some.inj h
  show some (values.ofString (values.str value)) = some value ↔ _
  rw [Option.some.injEq]
  constructor
  · intro heq
    exact ⟨_, heq.symm⟩
  · rintro ⟨s, rfl⟩
    rw [values.str_ofString]

/-! ## pgvector -/

/-- A row of the table. The embedding, the metadata and the times are left out. -/
structure Row where
  agentId : String
  content : String
  compressedValue : Option (List UInt8)
  accessCount : Nat
deriving DecidableEq

/-- A store of an agent, with a compressor or without one. -/
structure VectorStore where
  agentId : String
  compressor : Bool

/-- The rows, by their keys: the column `key` is unique. -/
abbrev Table := Dict String Row

namespace VectorStore

/-- `INSERT … ON CONFLICT (key) DO UPDATE`. An update leaves the id of the agent. -/
def upsert (key agentId content : String) (compressed : Option (List UInt8)) (rows : Table) :
    Table :=
  rows.set key
    (match rows.get? key with
      | none => ⟨agentId, content, compressed, 0⟩
      | some row => { row with content, compressedValue := compressed })

/-- The compressed value of a row, if the store compresses. -/
def compressed (b : VectorStore) (value : V) : Option (Option (List UInt8)) :=
  if b.compressor then (values.compress value).map some else some none

def store (b : VectorStore) (key : String) (value : V) (rows : Table) : Option Table :=
  (b.compressed values value).map fun compressed =>
    upsert key b.agentId (values.str value) compressed rows

/-- What a row says to the store: the compressed value if it has one and can read it, else
the JSON value or the text of the content. -/
def valueOf (b : VectorStore) (content : String) (compressedValue : Option (List UInt8)) :
    Option V :=
  match compressedValue with
  | some data =>
    if !data.isEmpty && b.compressor then values.decompress data
    else some ((values.loads content).getD (values.ofString content))
  | none => some ((values.loads content).getD (values.ofString content))

/-- The `UPDATE` counts the access. -/
def retrieve (b : VectorStore) (key : String) (rows : Table) : Table × Option V :=
  match rows.get? key with
  | none => (rows, some values.none)
  | some row =>
    (rows.set key { row with accessCount := row.accessCount + 1 },
      b.valueOf values row.content row.compressedValue)

def delete (key : String) (rows : Table) : Table := rows.erase key

end VectorStore

/-- The agents on one table. Each has its own store, with its id and its compressor. -/
def pgvector (compressor : String → Bool) : Backend Table String String V where
  init := .empty
  nothing := values.none
  store agentId := VectorStore.store values ⟨agentId, compressor agentId⟩
  retrieve agentId := VectorStore.retrieve values ⟨agentId, compressor agentId⟩
  delete _ := VectorStore.delete

/-- A row holds the text of a value, and its compressed form. -/
def pgvectorCells (compressor : String → Bool) :
    Cells String (String × Option (List UInt8)) (pgvector values compressor) where
  cell rows key := (rows.get? key).map fun row => (row.content, row.compressedValue)
  place key := key
  encode agentId value :=
    (VectorStore.compressed values ⟨agentId, compressor agentId⟩ value).map fun compressed =>
      (values.str value, compressed)
  decode agentId p := VectorStore.valueOf values ⟨agentId, compressor agentId⟩ p.1 p.2
  cell_init _ := rfl
  store_none := by
    intro agentId key value rows h
    simp only [Option.map_eq_none_iff] at h
    simp [pgvector, VectorStore.store, h]
  store_some := by
    intro agentId key value rows p h
    obtain ⟨compressed, hcompressed, rfl⟩ := Option.map_eq_some_iff.mp h
    refine ⟨VectorStore.upsert key agentId (values.str value) compressed rows,
      by simp [pgvector, VectorStore.store, hcompressed], fun other => ?_⟩
    unfold VectorStore.upsert
    rw [Dict.get?_set]
    split
    · rcases rows.get? key <;> rfl
    · rfl
  cell_retrieve := by
    intro agentId key rows
    funext other
    simp only [pgvector, VectorStore.retrieve]
    rcases hrow : rows.get? key with _ | row
    · rfl
    · simp only [Dict.get?_set]
      split
      · rename_i heq
        rw [← heq, hrow]
        rfl
      · rfl
  retrieve_none := by
    intro agentId key rows h
    simp only [Option.map_eq_none_iff] at h
    simp [pgvector, VectorStore.retrieve, h]
  retrieve_some := by
    intro agentId key rows p h
    obtain ⟨row, hrow, rfl⟩ := Option.map_eq_some_iff.mp h
    simp [pgvector, VectorStore.retrieve, hrow]
  cell_delete := by
    intro agentId key rows other
    simp only [pgvector, VectorStore.delete, Dict.get?_erase]
    split <;> rfl

/-- Without a compressor, what comes back of a table is what is equal to the JSON value that
its text is, and the strings whose text is none. -/
theorem pgvector_comes_back_iff {compressor : String → Bool} {agentId : String}
    (hplain : compressor agentId = false) (value : V) {p : String × Option (List UInt8)}
    (h : (pgvectorCells values compressor).encode agentId value = some p) :
    (pgvectorCells values compressor).decode agentId p = some value ↔
      values.loads (values.str value) = some value ∨
        (values.loads (values.str value) = none ∧ ∃ s, value = values.ofString s) := by
  have hp : (values.str value, none) = p := by
    simpa [pgvectorCells, VectorStore.compressed, hplain] using h
  subst hp
  show some ((values.loads (values.str value)).getD (values.ofString (values.str value))) =
    some value ↔ _
  rw [Option.some.injEq]
  rcases hloads : values.loads (values.str value) with _ | w
  · simp only [Option.getD_none, reduceCtorEq, true_and, false_or]
    constructor
    · intro heq
      exact ⟨_, heq.symm⟩
    · rintro ⟨s, rfl⟩
      rw [values.str_ofString]
  · simp

/-! ## The law -/

/-- On either backend no agent notices the others, and each gets back what it stored, exactly
when each operation finds no entry of another agent under its key and each stored value comes
back from its text. -/
theorem cold_tier_undisturbed_iff (uuid5 : String → String)
    (embeddingModel : String → Option String) (compressor : String → Bool)
    (ops : List (Op String String V)) :
    (Undisturbed (qdrant values uuid5 embeddingModel) ops ↔
      Run ((qdrant values uuid5 embeddingModel).interleaving.restrict
          (qdrantCells values uuid5 embeddingModel).Apart)
        (qdrant values uuid5 embeddingModel).new ops
        ((qdrant values uuid5 embeddingModel).execAll
          (qdrant values uuid5 embeddingModel).new ops)) ∧
    (Undisturbed (pgvector values compressor) ops ↔
      Run ((pgvector values compressor).interleaving.restrict
          (pgvectorCells values compressor).Apart)
        (pgvector values compressor).new ops
        ((pgvector values compressor).execAll (pgvector values compressor).new ops)) :=
  ⟨Cells.undisturbed_iff (qdrantCells values uuid5 embeddingModel) ops,
    Cells.undisturbed_iff (pgvectorCells values compressor) ops⟩

/-! ## Two agents on one key -/

/-- Values without floats. The agents below have no compressor. -/
def plainValues : Values Value where
  none := .none
  str := Value.text
  ofString := .str
  loads text := (jsons.loads text).map coding.valueOf
  compress _ := none
  decompress _ := none
  str_ofString _ := rfl

/-- The ids of the keys below. -/
def pointIds : Dict String String := Dict.ofList [
  ("notes", "7a539b3e-6678-5833-a1e7-d24558f7705a"),
  ("plan", "aee019aa-f28c-5846-80c7-5f2f1cf7c6b3")]

def pointIdOf (key : String) : String := (pointIds.get? key).getD ""

def oneCollection : Backend Collection String String Value :=
  qdrant plainValues pointIdOf (fun _ => none)

def oneTable : Backend Table String String Value := pgvector plainValues (fun _ => false)

/-- Each agent stores under a key of its own, and the first one reads. -/
def ownKeys : List (Op String String Value) :=
  [.store "writer" "notes" (.str "x"), .store "critic" "plan" (.str "y"),
    .retrieve "writer" "notes"]

theorem agents_on_their_own_keys_are_undisturbed : Undisturbed oneCollection ownKeys := by
  have hrun : Run (oneCollection.interleaving.restrict
      (qdrantCells plainValues pointIdOf (fun _ => none)).Apart)
      oneCollection.new ownKeys (oneCollection.execAll oneCollection.new ownKeys) := by
    refine .step ⟨rfl, ?_⟩ (.step ⟨rfl, ?_⟩ (.step ⟨rfl, ?_⟩ (.stay _)))
    · rintro content ⟨⟩
      refine ⟨rfl, ?_⟩
      rintro b j w - - ⟨⟩
    · rintro content ⟨⟩
      refine ⟨rfl, ?_⟩
      rintro b j w - hj hw
      by_cases hfirst : b = "writer" ∧ j = "notes"
      · obtain ⟨rfl, rfl⟩ := hfirst
        exact absurd hj (by decide +kernel)
      · have hkept : keep (fun _ _ => none) "writer" "notes" (some (.str "x")) b j = some w := hw
        rw [keep_of_ne _ _ hfirst] at hkept
        cases hkept
    · intro hnone
      cases hnone
  exact ((cold_tier_undisturbed_iff plainValues pointIdOf (fun _ => none) (fun _ => false)
    ownKeys).1).mpr hrun

/-- Both agents store under one key, and the first one reads. -/
def oneKey : List (Op String String Value) :=
  [.store "writer" "notes" (.str "x"), .store "critic" "notes" (.str "y"),
    .retrieve "writer" "notes"]

/-- The first agent reads what the second one stored, and a number comes back from a
collection as its text. -/
theorem agents_disturb_each_other :
    answersOf "writer" (oneCollection.execAll oneCollection.new oneKey) = [some (.str "y")] ∧
    ¬Undisturbed oneCollection oneKey ∧
    answersOf "writer" (oneTable.execAll oneTable.new oneKey) = [some (.str "y")] ∧
    ¬Undisturbed oneTable oneKey ∧
    answersOf "writer" (oneCollection.execAll oneCollection.new
      [.store "writer" "notes" (.int 1), .retrieve "writer" "notes"]) = [some (.str "1")] := by
  refine ⟨by decide +kernel, fun h => ?_, by decide +kernel, fun h => ?_, by decide +kernel⟩
  · exact absurd (h.alone "writer") (by decide +kernel)
  · exact absurd (h.alone "writer") (by decide +kernel)

end orchestra.cold_tiers
