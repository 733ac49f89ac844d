-- When a value of the memory is read as it was written: which dicts the hook takes for other
-- values, and where a model loses its class within another one.
import Orchestra.Lib.Batch
import Orchestra.Lib.Dict
import Orchestra.Serialization

open batches dicts fallible

namespace orchestra.serialization

section roundtrips

variable {D : Type} (R : Runtime D)

/-! ## Dicts within dicts -/

/-- `d["data"]`, `d["data"]["data"]`, and so on. -/
inductive Nested : Value D → Value D → Prop
  | data {obj : List (String × Value D)} {x : Value D} (found : obj.lookup "data" = some x) :
    Nested (.dict obj) x
  | deeper {d : Value D} {obj : List (String × Value D)} {x : Value D}
    (outer : Nested d (.dict obj)) (found : obj.lookup "data" = some x) : Nested d x

theorem Nested.isDict {d x : Value D} (h : Nested d x) :
    ∃ obj y, d = .dict obj ∧ obj.lookup "data" = some y := by
  induction h with
  | data found => exact ⟨_, _, rfl, found⟩
  | deeper _ _ ih => exact ih

theorem Nested.tail {d : Value D} {obj : List (String × Value D)} {z : Value D}
    (h : Nested d (.dict obj)) (hz : obj.lookup "data" = some z) {entries : List (String × Value D)}
    {y : Value D} (hd : d = .dict entries) (hy : entries.lookup "data" = some y) : Nested y z := by
  generalize hx : Value.dict obj = x at h
  induction h generalizing obj z with
  | data found =>
    subst hx
    cases hd
    rw [hy] at found
    cases found
    exact .data hz
  | deeper outer found ih =>
    subst hx
    exact .deeper (ih found hd rfl) hz

/-! ## What comes back -/

theorem unpack_array {items : List Packed} {r : Value D} :
    unpack R (.array items) = .ok r ↔ ∃ values, r = .list values ∧
      List.Forall₂ (fun item v => unpack R item = .ok v) items values := by
  simp only [unpack, bind_eq_ok_iff, unpackItems_iff]
  constructor
  · rintro ⟨values, hvalues, h⟩
    exact ⟨values, (Except.ok.inj h).symm, hvalues⟩
  · rintro ⟨values, rfl, hvalues⟩
    exact ⟨values, hvalues, rfl⟩

theorem unpack_map {entries : List (String × Packed)} {r : Value D} :
    unpack R (.map entries) = .ok r ↔ ∃ obj, List.Forall₂
      (fun e o => o.1 = e.1 ∧ unpack R e.2 = .ok o.2) entries obj ∧ objectHook R obj = .ok r := by
  simp only [unpack, bind_eq_ok_iff, unpackEntries_iff]

/-- The entries that are read of the fields of a model. -/
def FieldsRead (cls : ModelClass) (fields obj : List (String × Value D)) : Prop :=
  List.Forall₂ (fun e o =>
    o.1 = e.1 ∧ unpack R (pack R (some (cls.shapeOf e.1)) e.2) = .ok o.2) fields obj

theorem FieldsRead.keys {cls : ModelClass} {fields obj : List (String × Value D)}
    (h : FieldsRead R cls fields obj) : obj.map Prod.fst = fields.map Prod.fst :=
  keys_of_forall₂ (fun _ _ hxy => hxy.1) h

theorem unpack_fields {cls : ModelClass} {fields : List (String × Value D)}
    (hkeys : fields.map Prod.fst = cls.fields.map Field.name) {r : Value D} :
    unpack R (.map (pack.packFields R cls fields)) = .ok r ↔
      ∃ obj, FieldsRead R cls fields obj ∧ r = .dict obj := by
  rw [packFields_eq, unpack_map]
  refine exists_congr fun obj => ?_
  rw [List.forall₂_map_left_iff]
  refine and_congr_right fun hobj => ?_
  have huntagged := (fields_untagged ((FieldsRead.keys R hobj).trans hkeys)).1
  rw [hook_of_untagged R huntagged, Except.ok.injEq, eq_comm]

theorem lookup_registered {cls : ModelClass} (known : cls ≠ .baseModel) (data : Value D) :
    lookupClass [("__type__", .str "pydantic"), ("module", .str cls.modulePath),
      ("name", .str cls.className), ("data", data)] = some cls := by
  cases cls <;> first | exact absurd rfl known | rfl

/-- A dict with the tag of a registered model becomes the model, or its data if that does not
validate. -/
theorem hook_of_registered {obj : List (String × Value D)} {cls : ModelClass} {data : Value D}
    (htype : obj.lookup "__type__" = some (.str "pydantic")) (hcls : lookupClass obj = some cls)
    (hdata : obj.lookup "data" = some data) :
    objectHook R obj = .ok ((validate R (.model cls) data).getD data) := by
  have hnot : "pydantic" ≠ "datetime" := by decide
  unfold objectHook
  simp only [htype, hcls, hdata, if_neg hnot, true_or, if_true]
  cases validate R (.model cls) data with
  | some m => rfl
  | none => simp [dataOf, hdata]

theorem unpack_model {cls : ModelClass} (known : cls ≠ .baseModel)
    {fields : List (String × Value D)}
    (hkeys : fields.map Prod.fst = cls.fields.map Field.name) {r : Value D} :
    unpack R (pack R none (.model cls fields)) = .ok r ↔ ∃ obj, FieldsRead R cls fields obj ∧
      r = (validate R (.model cls) (.dict obj)).getD (.dict obj) := by
  have htagged (packed : Packed) : unpack R (.map [("__type__", .prim (.str "pydantic")),
      ("module", .prim (.str cls.modulePath)), ("name", .prim (.str cls.className)),
      ("data", packed)]) =
      unpack R packed >>= fun data => .ok ((validate R (.model cls) data).getD data) := by
    simp only [unpack, unpack.unpackEntries]
    cases unpack R packed with
    | error e => rfl
    | ok data => exact hook_of_registered R rfl (lookup_registered known data) rfl
  simp only [pack]
  rw [htagged, bind_eq_ok_iff]
  simp only [unpack_fields R hkeys]
  constructor
  · rintro ⟨_, ⟨obj, hobj, rfl⟩, h⟩
    exact ⟨obj, hobj, (Except.ok.inj h).symm⟩
  · rintro ⟨obj, hobj, rfl⟩
    exact ⟨.dict obj, ⟨obj, hobj, rfl⟩, rfl⟩

theorem names_of_fit {fs : List Field} {fields : List (String × Value D)}
    (fit : List.Forall₂ (fun f e => e.1 = f.name ∧ FieldFits f e.2) fs fields) :
    fields.map Prod.fst = fs.map Field.name := by
  induction fit with
  | nil => rfl
  | cons hxy _ ih => rw [List.map_cons, List.map_cons, hxy.1, ih]

theorem Proper.keys {cls : ModelClass} {fields : List (String × Value D)}
    (h : Proper (.model cls fields)) : fields.map Prod.fst = cls.fields.map Field.name := by
  cases h with
  | model _ fit _ => exact names_of_fit fit

theorem unpack_datetime (place : Option Shape) (d : D) : unpack R (pack R place (.datetime d)) =
    match R.fromisoformat (R.isoformat d) with
    | some d' => .ok (.datetime d')
    | none => .error .valueError := by
  simp only [pack, unpack, unpack.unpackEntries]
  rfl

/-- What is packed within a model comes back as no model. -/
theorem unpack_dumped {cls : ModelClass} {fields : List (String × Value D)}
    (hkeys : fields.map Prod.fst = cls.fields.map Field.name) {place : Shape} {r : Value D}
    (h : unpack R (pack R (some place) (.model cls fields)) = .ok r) :
    ∃ obj, r = .dict obj ∧ obj.lookup "data" = none := by
  have hfields (hr : unpack R (.map (pack.packFields R cls fields)) = .ok r) :
      ∃ obj, r = .dict obj ∧ obj.lookup "data" = none := by
    obtain ⟨obj, hobj, rfl⟩ := (unpack_fields R hkeys).mp hr
    exact ⟨obj, rfl, (fields_untagged ((FieldsRead.keys R hobj).trans hkeys)).2⟩
  simp only [pack] at h
  split at h
  · rename_i hplace
    nomatch hplace
  · obtain ⟨obj, hobj, hhook⟩ := (unpack_map R).mp h
    cases hobj
    exact ⟨[], (Except.ok.inj hhook).symm, rfl⟩
  · exact hfields h

/-- What is read under a key was packed under it. -/
theorem lookup_read {place : Option Shape} {entries obj : List (String × Value D)}
    (hobj : List.Forall₂ (fun e o => o.1 = e.1 ∧ unpack R (pack R place e.2) = .ok o.2) entries obj)
    (distinct : (entries.map Prod.fst).Nodup) {k : String} {x : Value D}
    (hx : obj.lookup k = some x) :
    ∃ y, entries.lookup k = some y ∧ (k, y) ∈ entries ∧ unpack R (pack R place y) = .ok x := by
  obtain ⟨y, hy, -, hread⟩ := lookup_right (fun _ _ hxy => hxy.1) hobj hx
  exact ⟨y, hy, (Dict.mem_entries_iff ⟨entries, distinct⟩ _ _).mpr hy, hread⟩

/-- No dict comes back of the data that lies within it. -/
theorem not_nested {v : Value D} (hv : Proper v) :
    ∀ (place : Option Shape) (d : Value D), Nested d v → unpack R (pack R place v) ≠ .ok d := by
  induction v using Value.parts_induction with
  | prim p =>
    intro place d hd h
    obtain ⟨obj, y, rfl, -⟩ := hd.isDict
    simp [pack, unpack] at h
  | list items _ =>
    intro place d hd h
    obtain ⟨obj, y, rfl, -⟩ := hd.isDict
    simp only [pack] at h
    obtain ⟨values, hvalues, -⟩ := (unpack_array R).mp h
    nomatch hvalues
  | datetime t =>
    intro place d hd h
    obtain ⟨obj, y, rfl, -⟩ := hd.isDict
    rw [unpack_datetime] at h
    split at h
    · nomatch h
    · nomatch h
  | model cls fields _ =>
    intro place d hd h
    obtain ⟨entries, y, rfl, hdata⟩ := hd.isDict
    have hkeys := hv.keys
    rcases place with _ | place
    · cases hv with
      | model known fit parts =>
        obtain ⟨obj, hobj, hr⟩ := (unpack_model R known hkeys).mp h
        cases hm : validate R (.model cls) (.dict obj) with
        | some m =>
          obtain ⟨c, fields', rfl⟩ := validate_model R hm
          rw [hm] at hr
          nomatch hr
        | none =>
          rw [hm] at hr
          cases hr
          rw [(fields_untagged ((FieldsRead.keys R hobj).trans hkeys)).2] at hdata
          nomatch hdata
    · obtain ⟨obj, hr, hnone⟩ := unpack_dumped R hkeys h
      cases hr
      rw [hnone] at hdata
      nomatch hdata
  | dict entries ih =>
    intro place d hd h
    cases hv with
    | dict distinct parts =>
      simp only [pack, packEntries_eq] at h
      obtain ⟨obj, hobj, hhook⟩ := (unpack_map R).mp h
      rw [List.forall₂_map_left_iff] at hobj
      rcases hook_cases R hhook with ⟨rfl, -⟩ | ⟨t, rfl⟩ | ⟨c, fields, rfl⟩ | hdata
      · obtain ⟨_, x, hobj', hx⟩ := hd.isDict
        cases hobj'
        obtain ⟨y, hinner, hy, hread⟩ := lookup_read R hobj distinct hx
        exact ih _ hy (parts _ hy) _ _ (hd.tail hinner rfl hx) hread
      · obtain ⟨_, _, hr, -⟩ := hd.isDict
        nomatch hr
      · obtain ⟨_, _, hr, -⟩ := hd.isDict
        nomatch hr
      · obtain ⟨y, hinner, hy, hread⟩ := lookup_read R hobj distinct hdata
        exact ih _ hy (parts _ hy) _ _ (.deeper hd hinner) hread

/-! ## Values in their places -/

/-- What stands in a place after reading. Within a model it is validated. -/
def restore (place : Option Shape) (v : Value D) : Option (Value D) :=
  match place with
  | none => some v
  | some shape => validate R shape v

/-- A value comes back to its place. -/
def ComesBack (place : Option Shape) (v : Value D) : Prop :=
  ∃ read, unpack R (pack R place v) = .ok read ∧ restore R place read = some v

def FitsAt (place : Option Shape) (v : Value D) : Prop := ∀ shape, place = some shape → Fits shape v

theorem validate_any (v : Value D) : validate R .any v = some v := by
  cases v <;> rfl

theorem restore_anywhere {place : Option Shape} (hplace : place = none ∨ place = some .any)
    (v : Value D) : restore R place v = some v := by
  rcases hplace with rfl | rfl
  · rfl
  · exact validate_any R v

theorem comesBack_anywhere {place : Option Shape} (hplace : place = none ∨ place = some .any)
    (v : Value D) : ComesBack R place v ↔ unpack R (pack R place v) = .ok v := by
  constructor
  · rintro ⟨read, hread, hrestore⟩
    rw [restore_anywhere R hplace] at hrestore
    rw [hread, Option.some.inj hrestore]
  · intro hread
    exact ⟨v, hread, restore_anywhere R hplace v⟩

/-- The place of the parts of a dict. -/
theorem entry_place (place : Option Shape) :
    (place.map fun _ => Shape.any) = none ∨ (place.map fun _ => Shape.any) = some .any := by
  cases place
  · exact Or.inl rfl
  · exact Or.inr rfl

/-! ## Lists -/

theorem exists_between {α β : Type} {A : α → β → Prop} {B : β → α → Prop} {xs : List α} :
    (∃ ys, List.Forall₂ A xs ys ∧ List.Forall₂ B ys xs) ↔ ∀ x ∈ xs, ∃ y, A x y ∧ B y x := by
  induction xs with
  | nil => exact iff_of_true ⟨[], .nil, .nil⟩ (by simp)
  | cons x xs ih =>
    rw [List.forall_mem_cons, ← ih]
    constructor
    · rintro ⟨_, hAs, hBs⟩
      cases hAs with
      | @cons _ y _ ys hA hAs =>
        cases hBs with
        | cons hB hBs => exact ⟨⟨y, hA, hB⟩, ys, hAs, hBs⟩
    · rintro ⟨⟨y, hA, hB⟩, ys, hAs, hBs⟩
      exact ⟨y :: ys, .cons hA hAs, .cons hB hBs⟩

theorem restore_list {place : Option Shape} {items values : List (Value D)}
    (hfit : FitsAt place (.list items)) :
    restore R place (.list values) = some (.list items) ↔
      List.Forall₂ (fun c v => restore R (place.map Shape.item) c = some v) values items := by
  have hsame (q : Option Shape) (hq : q = none ∨ q = some .any) :
      List.Forall₂ (fun c v => restore R q c = some v) values items ↔ values = items := by
    simp only [restore_anywhere R hq, Option.some.injEq, List.forall₂_eq_eq_eq]
  rcases place with _ | shape
  · refine Iff.trans ?_ (hsame none (Or.inl rfl)).symm
    simp [restore]
  · rcases fits_list (hfit shape rfl) with rfl | ⟨item, rfl, -⟩
    · refine Iff.trans ?_ (hsame (some .any) (Or.inr rfl)).symm
      simp [restore, validate]
    · simp only [restore, validate, Option.map_eq_some_iff, Value.list.injEq, exists_eq_right,
        validateItems_iff, Option.map_some, Shape.item]

theorem comesBack_list {place : Option Shape} {items : List (Value D)}
    (hfit : FitsAt place (.list items)) : ComesBack R place (.list items) ↔
      ∀ v ∈ items, ComesBack R (place.map Shape.item) v := by
  unfold ComesBack
  rw [← exists_between]
  simp only [pack, packItems_eq, unpack_array, List.forall₂_map_left_iff]
  constructor
  · rintro ⟨_, ⟨values, rfl, hvalues⟩, hrestore⟩
    exact ⟨values, hvalues, (restore_list R hfit).mp hrestore⟩
  · rintro ⟨values, hvalues, hitems⟩
    exact ⟨.list values, ⟨values, rfl, hvalues⟩, (restore_list R hfit).mpr hitems⟩

theorem fitsAt_item {place : Option Shape} {items : List (Value D)}
    (hfit : FitsAt place (.list items)) : ∀ v ∈ items, FitsAt (place.map Shape.item) v := by
  intro v hv shape hshape
  rcases place with _ | outer
  · nomatch hshape
  · cases hshape
    rcases fits_list (hfit outer rfl) with rfl | ⟨item, rfl, hparts⟩
    · exact trivial
    · exact hparts v hv

/-! ## Dicts -/

theorem restore_eq_dict_iff {place : Option Shape} {entries : List (String × Value D)}
    (hfit : FitsAt place (.dict entries)) (read : Value D) :
    restore R place read = some (.dict entries) ↔ read = .dict entries := by
  rcases place with _ | shape
  · simp [restore]
  · rcases fits_dict (hfit shape rfl) with rfl | rfl
    · simp [restore, validate_any]
    · cases read <;> simp [restore, validate]

/-- A dict comes back when the hook does not take it for another value and its parts come
back. -/
theorem comesBack_dict {place : Option Shape} {entries : List (String × Value D)}
    (hfit : FitsAt place (.dict entries)) (hv : Proper (.dict entries)) :
    ComesBack R place (.dict entries) ↔ Untagged entries ∧
      ∀ e ∈ entries, ComesBack R (place.map fun _ => .any) e.2 := by
  cases hv with
  | dict distinct parts =>
    simp only [ComesBack, restore_eq_dict_iff R hfit, exists_eq_right, pack, packEntries_eq,
      unpack_map, List.forall₂_map_left_iff]
    have hplace := entry_place place
    have hcomes (v : Value D) := comesBack_anywhere R hplace v
    unfold ComesBack at hcomes
    simp only [hcomes]
    constructor
    · rintro ⟨obj, hobj, hhook⟩
      rcases hook_cases R hhook with ⟨hsame, huntagged⟩ | ⟨d, hd⟩ | ⟨c, fields, hm⟩ | hdata
      · cases hsame
        exact ⟨huntagged, fun e he => (List.forall₂_same.mp hobj e he).2⟩
      · nomatch hd
      · nomatch hm
      · -- the data would be the dict that it lies in
        obtain ⟨y, hinner, hy, hread⟩ := lookup_read R hobj distinct hdata
        exact (not_nested R (parts _ hy) _ _ (.data hinner) hread).elim
    · rintro ⟨huntagged, hparts⟩
      refine ⟨entries, List.forall₂_same.mpr fun e he => ⟨rfl, hparts e he⟩, ?_⟩
      exact hook_of_untagged R huntagged

/-! ## Models -/

/-- What a model takes for a field. -/
def validateField (f : Field) (v : Value D) : Option (Value D) :=
  match v, f.nullable with
  | .null, true => some .null
  | _, _ => validate R f.shape v

theorem lookup_validateEntries {cls : ModelClass} {f : Field} (hf : f ∈ cls.fields)
    (obj : List (String × Value D)) :
    (validate.validateEntries R cls obj).lookup f.name =
      (obj.lookup f.name).map (validateField R f) := by
  induction obj with
  | nil => simp [validate.validateEntries]
  | cons e rest ih =>
    rcases e with ⟨name, v⟩
    simp only [validate.validateEntries, List.lookup_cons]
    split
    · rename_i hname
      obtain rfl : f.name = name := by simpa using hname
      rw [field?_of_mem hf]
      rfl
    · exact ih

/-- A dict of all the fields is the model whose fields they are taken for. -/
theorem validate_fields_iff {cls : ModelClass} {obj fields : List (String × Value D)}
    (hkeys : obj.map Prod.fst = cls.fields.map Field.name) :
    validate R (.model cls) (.dict obj) = some (.model cls fields) ↔
      List.Forall₂ (fun f e => e.1 = f.name ∧
        ∃ v, obj.lookup f.name = some v ∧ validateField R f v = some e.2) cls.fields fields := by
  have hgiven {f : Field} (hf : f ∈ cls.fields) (e : String × Value D) :
      (((validate.validateEntries R cls obj).lookup f.name).getD
        (f.default.value R.newCallId)).map (f.name, ·) = some e ↔
      e.1 = f.name ∧ ∃ v, obj.lookup f.name = some v ∧ validateField R f v = some e.2 := by
    rw [lookup_validateEntries R hf]
    cases hv : obj.lookup f.name with
    | none =>
      have hmem : f.name ∈ obj.map Prod.fst := hkeys ▸ List.mem_map_of_mem hf
      obtain ⟨o, ho, hname⟩ := List.mem_map.mp hmem
      have hnot := List.lookup_eq_none_iff.mp hv o ho
      simp [hname] at hnot
    | some v =>
      rcases e with ⟨name, w⟩
      simp [Prod.ext_iff, eq_comm, and_comm]
  simp only [validate, Option.map_eq_some_iff, Value.model.injEq, true_and, exists_eq_right]
  unfold assemble
  rw [mapM_some_iff, List.forall₂_iff_zip, List.forall₂_iff_zip]
  refine and_congr_right fun _ => ?_
  refine forall_congr' fun f => forall_congr' fun e => ?_
  exact imp_congr_right fun hpair => hgiven (List.of_mem_zip hpair).1 e

/-- The value of a field comes back to it. -/
def FieldComesBack (f : Field) (v : Value D) : Prop :=
  ∃ read, unpack R (pack R (some f.shape) v) = .ok read ∧ validateField R f read = some v

theorem not_holds_none (t : Scalar) : ¬ t.Holds .none := by
  cases t <;> exact id

theorem unpack_prim (place : Option Shape) (p : Primitive) :
    unpack R (pack R place (.prim p)) = .ok (.prim p) := by
  simp [pack, unpack]

theorem comesBack_of_field {f : Field} {v : Value D} (hv : v ≠ .null)
    (h : FieldComesBack R f v) : ComesBack R (some f.shape) v := by
  obtain ⟨read, hread, hfield⟩ := h
  refine ⟨read, hread, ?_⟩
  unfold validateField at hfield
  split at hfield
  · exact absurd (Option.some.inj hfield).symm hv
  · exact hfield

/-- Only a scalar type may make something else of `None`. -/
theorem validate_null {shape : Shape} {v : Value D} (h : validate R shape .null = some v) :
    v = .null ∨ ∃ t, shape = .scalar t := by
  cases shape with
  | any => exact Or.inl (by simpa [validate, eq_comm] using h)
  | scalar t => exact Or.inr ⟨t, rfl⟩
  | dict => simp [validate] at h
  | list item => simp [validate] at h
  | model cls => simp [validate] at h

theorem fieldComesBack_iff {f : Field} {v : Value D} (hfit : FieldFits f v) :
    FieldComesBack R f v ↔ v = .null ∨ ComesBack R (some f.shape) v := by
  by_cases hv : v = .null
  · subst hv
    refine iff_of_true ⟨.null, unpack_prim R _ _, ?_⟩ (Or.inl rfl)
    unfold validateField
    split
    · rfl
    · rename_i hnot
      rcases hfit with ⟨hnullable, -⟩ | hfit
      · exact absurd hnullable (hnot rfl)
      · rcases fits_prim hfit with hany | ⟨t, -, hholds⟩
        · rw [hany]
          exact validate_any R _
        · exact absurd hholds (not_holds_none t)
  · rw [or_iff_right hv]
    have hfits : Fits f.shape v := hfit.resolve_left fun h => hv h.2
    constructor
    · exact comesBack_of_field R hv
    · rintro ⟨read, hread, hrestore⟩
      refine ⟨read, hread, ?_⟩
      unfold validateField
      split
      · -- `None` is read for no value but itself
        have hrestore' : validate R f.shape .null = some v := hrestore
        rcases validate_null R hrestore' with rfl | ⟨t, ht⟩
        · exact absurd rfl hv
        · rw [ht] at hfits hread
          obtain ⟨p, rfl, -⟩ := hfits
          rw [unpack_prim] at hread
          exact absurd (Except.ok.inj hread) hv
      · exact hrestore

theorem exists_mem_zip {α β : Type} {xs : List α} {ys : List β} (h : xs.length = ys.length)
    {y : β} (hy : y ∈ ys) : ∃ x, (x, y) ∈ xs.zip ys := by
  have hsnd : (xs.zip ys).map Prod.snd = ys := List.map_snd_zip (Nat.le_of_eq h.symm)
  rw [← hsnd] at hy
  obtain ⟨⟨x, _⟩, hmem, rfl⟩ := List.mem_map.mp hy
  exact ⟨x, hmem⟩

/-- The entries that are read of a model are those of the model just when each field comes
back. -/
theorem fields_comeBack {cls : ModelClass} {fields : List (String × Value D)}
    (fit : List.Forall₂ (fun f e => e.1 = f.name ∧ FieldFits f e.2) cls.fields fields) :
    (∃ obj, FieldsRead R cls fields obj ∧
      validate R (.model cls) (.dict obj) = some (.model cls fields)) ↔
      List.Forall₂ (fun f e => FieldComesBack R f e.2) cls.fields fields := by
  have hkeys := names_of_fit fit
  obtain ⟨hlength, hfit⟩ := List.forall₂_iff_zip.mp fit
  have hdistinct : (fields.map Prod.fst).Nodup := hkeys ▸ nodup_fieldNames cls
  have hlookup {e : String × Value D} (he : e ∈ fields) : fields.lookup e.1 = some e.2 :=
    (Dict.mem_entries_iff ⟨fields, hdistinct⟩ e.1 e.2).mp he
  constructor
  · rintro ⟨obj, hobj, hvalid⟩
    rw [validate_fields_iff R ((FieldsRead.keys R hobj).trans hkeys),
      List.forall₂_iff_zip] at hvalid
    rw [List.forall₂_iff_zip]
    refine ⟨hvalid.1, ?_⟩
    intro f e hpair
    obtain ⟨hf, he⟩ := List.of_mem_zip hpair
    obtain ⟨hname, v, hv, hfield⟩ := hvalid.2 hpair
    obtain ⟨w, hw, hread⟩ := lookup_right (fun _ _ hxy => hxy.1) hobj hv
    rw [← hname, hlookup he, Option.some.injEq] at hw
    subst hw
    refine ⟨v, ?_, hfield⟩
    rw [← shapeOf_of_mem hf]
    exact hread.2
  · intro h
    obtain ⟨-, hcomes⟩ := List.forall₂_iff_zip.mp h
    have hread : ∀ e ∈ fields, ∃ o : String × Value D, (o.1 = e.1 ∧
        unpack R (pack R (some (cls.shapeOf e.1)) e.2) = .ok o.2) ∧ True := by
      intro e he
      obtain ⟨f, hmem⟩ := exists_mem_zip hlength he
      obtain ⟨read, hread, -⟩ := hcomes hmem
      refine ⟨(e.1, read), ⟨rfl, ?_⟩, trivial⟩
      rw [(hfit hmem).1, shapeOf_of_mem (List.of_mem_zip hmem).1]
      exact hread
    obtain ⟨obj, hobj, -⟩ := exists_between.mpr hread
    refine ⟨obj, hobj, ?_⟩
    rw [validate_fields_iff R ((FieldsRead.keys R hobj).trans hkeys), List.forall₂_iff_zip]
    refine ⟨hlength, ?_⟩
    intro f e hmem
    obtain ⟨hf, he⟩ := List.of_mem_zip hmem
    obtain ⟨hname, -⟩ := hfit hmem
    obtain ⟨read, hread, hfield⟩ := hcomes hmem
    obtain ⟨v, hv, -, hsame⟩ := lookup_left (fun _ _ hxy => hxy.1) hobj (hlookup he)
    simp only [hname, shapeOf_of_mem hf, hread, Except.ok.injEq] at hsame
    subst hsame
    exact ⟨hname, read, hname ▸ hv, hfield⟩

/-- A model comes back from outside of a model or from a place of its class, when its fields
come back. -/
theorem comesBack_model {place : Option Shape} {cls : ModelClass}
    {fields : List (String × Value D)} (hplace : FitsAt place (.model cls fields))
    (hv : Proper (.model cls fields)) : ComesBack R place (.model cls fields) ↔
      (place ≠ some .any ∧ place ≠ some (.model .baseModel)) ∧
      List.Forall₂ (fun f e => FieldComesBack R f e.2) cls.fields fields := by
  have hkeys := hv.keys
  cases hv with
  | model known fit parts =>
    rw [← fields_comeBack R fit]
    -- what is no model or one of another class is not the model
    have hdumped (shape : Shape) (hother : ∀ obj : List (String × Value D),
        validate R shape (.dict obj) ≠ some (.model cls fields)) :
        ¬ ComesBack R (some shape) (.model cls fields) := by
      rintro ⟨read, hread, hrestore⟩
      obtain ⟨obj, rfl, -⟩ := unpack_dumped R hkeys hread
      exact hother obj hrestore
    rcases place with _ | shape
    · simp only [ne_eq, reduceCtorEq, not_false_eq_true, and_self, true_and]
      constructor
      · rintro ⟨read, hread, hrestore⟩
        obtain ⟨obj, hobj, hresult⟩ := (unpack_model R known hkeys).mp hread
        rw [Option.some.inj hrestore] at hresult
        refine ⟨obj, hobj, ?_⟩
        cases hvalid : validate R (.model cls) (.dict obj) with
        | none =>
          rw [hvalid] at hresult
          nomatch hresult
        | some m =>
          rw [hvalid] at hresult
          exact congrArg some hresult.symm
      · rintro ⟨obj, hobj, hvalid⟩
        refine ⟨.model cls fields, (unpack_model R known hkeys).mpr ⟨obj, hobj, ?_⟩, rfl⟩
        rw [hvalid]
        rfl
    · rcases fits_model (hplace shape rfl) with rfl | rfl | rfl
      · have hnot := hdumped .any (by intro obj h; nomatch h)
        exact iff_of_false hnot fun h => h.1.1 rfl
      · have hpack : pack R (some (.model cls)) (.model cls fields) =
            .map (pack.packFields R cls fields) := by
          simp only [pack]
          split
          · rename_i h
            nomatch h
          · rename_i h
            cases h
            exact absurd rfl known
          · rfl
        rw [and_iff_right ⟨by simp, by simpa using known⟩]
        unfold ComesBack
        rw [hpack]
        simp only [unpack_fields R hkeys, restore]
        constructor
        · rintro ⟨_, ⟨obj, hobj, rfl⟩, hvalid⟩
          exact ⟨obj, hobj, hvalid⟩
        · rintro ⟨obj, hobj, hvalid⟩
          exact ⟨.dict obj, ⟨obj, hobj, rfl⟩, hvalid⟩
      · have hnot := hdumped (.model .baseModel) (by
          intro obj h
          simp only [validate, Option.map_eq_some_iff, Value.model.injEq] at h
          obtain ⟨-, -, hcls, -⟩ := h
          exact known hcls.symm)
        exact iff_of_false hnot fun h => h.1.2 rfl

/-! ## When a value comes back -/

/-- A datetime is read from its text as it was, and a scalar of the right type is taken as it
is. -/
structure Runtime.Lawful (R : Runtime D) : Prop where
  fromisoformat_isoformat : ∀ d, R.fromisoformat (R.isoformat d) = some d
  coerce_fitting : ∀ t p, Scalar.Holds t p → R.coerce t (.prim p) = some (.prim p)

theorem Kept.list_iff {place : Option Shape} {items : List (Value D)} :
    Kept place (.list items) ↔ ∀ v ∈ items, Kept (place.map Shape.item) v := by
  constructor
  · intro h
    cases h with
    | list parts => exact parts
  · exact .list

theorem Kept.dict_iff {place : Option Shape} {entries : List (String × Value D)} :
    Kept place (.dict entries) ↔
      Untagged entries ∧ ∀ e ∈ entries, Kept (place.map fun _ => .any) e.2 := by
  constructor
  · intro h
    cases h with
    | dict untagged parts => exact ⟨untagged, parts⟩
  · rintro ⟨untagged, parts⟩
    exact .dict untagged parts

theorem Kept.model_iff {place : Option Shape} {cls : ModelClass}
    {fields : List (String × Value D)} : Kept place (.model cls fields) ↔
      (place ≠ some .any ∧ place ≠ some (.model .baseModel)) ∧
      ∀ e ∈ fields, Kept (some (cls.shapeOf e.1)) e.2 := by
  constructor
  · intro h
    cases h with
    | model typed parts => exact ⟨typed, parts⟩
  · rintro ⟨typed, parts⟩
    exact .model typed parts

theorem restore_prim (hR : R.Lawful) {place : Option Shape} {p : Primitive}
    (hfit : FitsAt place (.prim p : Value D)) : restore R place (.prim p) = some (.prim p) := by
  rcases place with _ | shape
  · rfl
  · rcases fits_prim (hfit shape rfl) with rfl | ⟨t, rfl, hholds⟩
    · exact validate_any R _
    · simp only [restore, validate]
      exact hR.coerce_fitting t p hholds

theorem restore_datetime {place : Option Shape} {d : D} (hfit : FitsAt place (.datetime d)) :
    restore R place (.datetime d) = some (.datetime d) := by
  rcases place with _ | shape
  · rfl
  · rw [fits_datetime (hfit shape rfl)]
    exact validate_any R _

/-- The fields of a model come back when each is kept. -/
theorem fields_iff {cls : ModelClass} {fields : List (String × Value D)}
    (fit : List.Forall₂ (fun f e => e.1 = f.name ∧ FieldFits f e.2) cls.fields fields)
    (hparts : ∀ e ∈ fields, ∀ shape, Fits shape e.2 →
      (ComesBack R (some shape) e.2 ↔ Kept (some shape) e.2)) :
    List.Forall₂ (fun f e => FieldComesBack R f e.2) cls.fields fields ↔
      ∀ e ∈ fields, Kept (some (cls.shapeOf e.1)) e.2 := by
  obtain ⟨hlength, hfit⟩ := List.forall₂_iff_zip.mp fit
  have hfield {f : Field} {e : String × Value D} (hpair : (f, e) ∈ cls.fields.zip fields) :
      FieldComesBack R f e.2 ↔ Kept (some (cls.shapeOf e.1)) e.2 := by
    obtain ⟨hf, he⟩ := List.of_mem_zip hpair
    obtain ⟨hname, hfits⟩ := hfit hpair
    rw [fieldComesBack_iff R hfits, hname, shapeOf_of_mem hf]
    by_cases hnull : e.2 = .null
    · rw [hnull]
      exact iff_of_true (Or.inl rfl) (.prim _)
    · rw [or_iff_right hnull]
      exact hparts e he f.shape (hfits.resolve_left fun h => hnull h.2)
  rw [List.forall₂_iff_zip]
  constructor
  · rintro ⟨-, h⟩ e he
    obtain ⟨f, hpair⟩ := exists_mem_zip hlength he
    exact (hfield hpair).mp (h hpair)
  · intro h
    refine ⟨hlength, ?_⟩
    intro f e hpair
    exact (hfield hpair).mpr (h e (List.of_mem_zip hpair).2)

/-- A value comes back to its place just when the hook takes no dict of it for another value
and no model of it stands where its class is not known. -/
theorem comesBack_iff (hR : R.Lawful) {v : Value D} (hv : Proper v) :
    ∀ place, FitsAt place v → (ComesBack R place v ↔ Kept place v) := by
  induction v using Value.parts_induction with
  | prim p =>
    intro place hfit
    exact iff_of_true ⟨.prim p, unpack_prim R place p, restore_prim R hR hfit⟩ (.prim p)
  | datetime d =>
    intro place hfit
    refine iff_of_true ⟨.datetime d, ?_, restore_datetime R hfit⟩ (.datetime d)
    rw [unpack_datetime, hR.fromisoformat_isoformat]
  | list items ih =>
    intro place hfit
    rw [comesBack_list R hfit, Kept.list_iff]
    cases hv with
    | list parts =>
      refine forall_congr' fun v => forall_congr' fun hmem => ?_
      exact ih v hmem (parts v hmem) _ (fitsAt_item hfit v hmem)
  | dict entries ih =>
    intro place hfit
    rw [comesBack_dict R hfit hv, Kept.dict_iff]
    cases hv with
    | dict distinct parts =>
      refine and_congr_right fun _ => forall_congr' fun e => forall_congr' fun hmem => ?_
      refine ih e hmem (parts e hmem) _ ?_
      intro shape hshape
      rcases entry_place place with hnone | hany
      · rw [hnone] at hshape
        nomatch hshape
      · rw [hany] at hshape
        cases hshape
        exact trivial
  | model cls fields ih =>
    intro place hfit
    rw [comesBack_model R hfit hv, Kept.model_iff]
    cases hv with
    | model known fit parts =>
      refine and_congr_right fun _ => fields_iff R fit ?_
      intro e he shape hfits
      refine ih e he (parts e he) (some shape) ?_
      rintro _ ⟨⟩
      exact hfits

/-- What is stored is what was stored: a value is unpacked as it was packed just when no dict
of it is taken for a datetime, a model or its own data, and no model stands within another
one in a field of type `Any`, in a dict, or as the structured output of a result. -/
theorem unpack_pack_iff (hR : R.Lawful) (v : Storable D) :
    unpack R (pack R none v.value) = .ok v.value ↔ Kept none v.value := by
  rw [← comesBack_anywhere R (Or.inl rfl)]
  refine comesBack_iff R hR v.proper none ?_
  intro shape hshape
  nomatch hshape

end roundtrips

/-- One datetime, and pydantic on values of the right type. -/
def newYear : Runtime Unit where
  isoformat _ := "2026-01-01T00:00:00"
  fromisoformat text := if text = "2026-01-01T00:00:00" then some () else none
  coerce _ v :=
    match v with
    | .prim p => some (.prim p)
    | _ => none
  newCallId := "call_0123456789ab"

theorem newYear_lawful : newYear.Lawful where
  fromisoformat_isoformat _ := rfl
  coerce_fitting _ _ _ := rfl

def startNode : Value Unit := .model .send [("node", .str "start"), ("state", .dict [])]

theorem proper_startNode : Proper startNode := by
  refine .model (by decide) ?_ ?_
  · refine .cons ⟨rfl, Or.inr ⟨.str "start", rfl, trivial⟩⟩ ?_
    exact .cons ⟨rfl, Or.inr ⟨[], rfl⟩⟩ .nil
  · simp only [List.forall_mem_cons, List.not_mem_nil, false_imp_iff, implies_true, and_true]
    exact ⟨.prim _, .dict List.nodup_nil (by simp)⟩

def scheduled : Storable Unit where
  value := .dict [("send", startNode), ("at", .datetime ())]
  proper := by
    refine .dict (by decide) ?_
    simp only [List.forall_mem_cons, List.not_mem_nil, false_imp_iff, implies_true, and_true]
    exact ⟨proper_startNode, .datetime ()⟩

/-- A model and a datetime in a dict come back. -/
theorem a_model_and_a_datetime_come_back :
    unpack newYear (pack newYear none scheduled.value) = .ok scheduled.value := by
  refine (unpack_pack_iff newYear newYear_lawful scheduled).mpr (.dict ?_ ?_)
  · exact untagged_of_lookup rfl
  · simp only [List.forall_mem_cons, List.not_mem_nil, false_imp_iff, implies_true, and_true]
    refine ⟨.model (by simp) ?_, .datetime ()⟩
    simp only [List.forall_mem_cons, List.not_mem_nil, false_imp_iff, implies_true, and_true]
    exact ⟨.prim _, .dict (untagged_of_lookup rfl) (by simp)⟩

/-- A dict of a user with a tag of the writer. -/
def draft : Storable Unit where
  value := .dict [("__type__", .str "pydantic"), ("data", .str "draft")]
  proper := by
    refine .dict (by decide) ?_
    simp only [List.forall_mem_cons, List.not_mem_nil, false_imp_iff, implies_true, and_true]
    exact ⟨.prim _, .prim _⟩

theorem a_tagged_dict_comes_back_as_its_data :
    unpack newYear (pack newYear none draft.value) ≠ .ok draft.value := by
  have hread : unpack newYear (pack newYear none draft.value) = .ok (.str "draft") := by
    rfl
  rw [hread]
  intro h
  nomatch h

end orchestra.serialization
