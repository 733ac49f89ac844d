-- The routing against the packet: who is given a document that exists, which documents are
-- given to nobody, and what the answer of the router has to say for both.
import Orchestra.Tprm.Routing

open dicts orchestra.tprm.schemas orchestra.tprm.state orchestra.tprm.answers
open orchestra.tprm.routing

namespace orchestra.tprm.coverage

/-! ## What is wanted of a routing -/

/-- Every active agent has a name that leads to a document, and every document is what a name
of an active agent leads to. -/
structure Covered (active : List String) (manifest : List ManifestEntry) (routing : Routing)
    (fileUris : Dict String String) : Prop where
  agents : ∀ name ∈ active, ∃ docs, routing.get? name = some docs ∧
    ∃ doc ∈ docs, ∃ e ∈ manifest, fileUris.get? doc = some e.fileUri
  documents : ∀ e ∈ manifest, ∃ name ∈ active, ∃ docs, routing.get? name = some docs ∧
    ∃ doc ∈ docs, fileUris.get? doc = some e.fileUri

/-! ## The names of a packet -/

/-- The names with their URIs, in the order in which they are written down. -/
def names (packet : Packet) : List (String × String) := packet.shorthand ++ packet.byFileName

/-- The name stands for the URI: no other one is written down under it later. -/
def Stands (packet : Packet) (doc uri : String) : Prop :=
  ∃ before after, names packet = before ++ (doc, uri) :: after ∧ ∀ pair ∈ after, pair.1 ≠ doc

theorem get?_fileUris (packet : Packet) (doc uri : String) :
    packet.fileUris.get? doc = some uri ↔ Stands packet doc uri := by
  have hall : packet.fileUris = Dict.ofList (names packet) := by
    unfold Packet.fileUris names Dict.ofList Dict.setAll
    rw [List.foldl_append]
  rw [hall, Dict.get?_ofList_iff]
  rfl

theorem mem_names {packet : Packet} {pair : String × String} (h : pair ∈ names packet) :
    ∃ e ∈ packet.manifest, pair.2 = e.fileUri := by
  have hby : ∀ f : ManifestEntry → String,
      pair ∈ packet.manifest.map (fun e => (f e, e.fileUri)) →
        ∃ e ∈ packet.manifest, pair.2 = e.fileUri := by
    intro f hmem
    obtain ⟨e, he, rfl⟩ := List.mem_map.mp hmem
    exact ⟨e, he, rfl⟩
  rcases List.mem_append.mp h with h | h
  · cases packet with
    | folder docs subjectName => exact hby _ h
    | drive files localUri => exact hby _ h
    | absent => cases h
  · exact hby _ h

theorem Stands.mem_manifest {packet : Packet} {doc uri : String} (h : Stands packet doc uri) :
    ∃ e ∈ packet.manifest, uri = e.fileUri := by
  obtain ⟨before, after, heq, -⟩ := h
  refine mem_names (?_ : (doc, uri) ∈ names packet)
  rw [heq]
  simp

/-- The file name of a document stands for some URI. -/
theorem exists_stands {packet : Packet} {e : ManifestEntry} (he : e ∈ packet.manifest) :
    ∃ uri, Stands packet (fileName e.path) uri := by
  have hkey : fileName e.path ∈ packet.fileUris.keys := by
    have hmem : (fileName e.path, e.fileUri) ∈ packet.byFileName :=
      List.mem_map.mpr ⟨e, he, rfl⟩
    have hsome : packet.byFileName.reverse.lookup (fileName e.path) ≠ none := by
      intro hnone
      have hne := List.lookup_eq_none_iff.mp hnone _ (List.mem_reverse.mpr hmem)
      simp at hne
    obtain ⟨uri, huri⟩ := Option.ne_none_iff_exists'.mp hsome
    refine (Dict.mem_keys_iff _ _).mpr ⟨uri, ?_⟩
    unfold Packet.fileUris
    rw [Dict.get?_setAll_reverse, huri]
    rfl
  obtain ⟨uri, huri⟩ := (Dict.mem_keys_iff _ _).mp hkey
  exact ⟨uri, (get?_fileUris ..).mp huri⟩

/-! ## Assignments -/

/-- The documents that the pairs give to an agent. -/
def docsOf (pairs : List (String × String)) (name : String) : List String :=
  (pairs.filter (fun pair => pair.1 = name)).map Prod.snd

theorem get?_assign (routing : Routing) (name doc other : String) :
    (assign routing name doc).get? other =
      (routing.get? other).map (fun docs => docs ++ docsOf [(name, doc)] other) := by
  unfold assign docsOf
  by_cases h : name = other
  · subst h
    rcases hname : routing.get? name with _ | docs
    · simp [hname]
    · simp [Dict.get?_set_self]
  · rcases hname : routing.get? name with _ | docs
    · simp [h]
    · simp [Dict.get?_set_ne _ _ h, h]

theorem get?_assignAll (routing : Routing) (pairs : List (String × String)) (name : String) :
    (assignAll routing pairs).get? name =
      (routing.get? name).map (fun docs => docs ++ docsOf pairs name) := by
  unfold assignAll
  induction pairs generalizing routing with
  | nil => simp [docsOf]
  | cons pair rest ih =>
    rw [List.foldl_cons, ih, get?_assign, Option.map_map]
    congr 1
    funext docs
    have hsplit : docsOf (pair :: rest) name = docsOf [pair] name ++ docsOf rest name := by
      unfold docsOf
      rw [← List.map_append, ← List.filter_append]
      rfl
    simp [hsplit]

theorem get?_emptyRouting (active : List String) (name : String) :
    (emptyRouting active).get? name = if name ∈ active then some [] else none := by
  unfold emptyRouting
  rw [Dict.get?_ofList, ← List.map_reverse]
  have hmem : name ∈ active ↔ name ∈ active.reverse := List.mem_reverse.symm
  rw [if_congr hmem rfl rfl]
  induction active.reverse with
  | nil => rfl
  | cons a rest ih =>
    rw [List.map_cons, List.lookup_cons]
    by_cases ha : name = a
    · subst ha
      simp
    · have hbeq : (name == a) = false := by simpa using ha
      simp [hbeq, ih, ha]

/-! ## The routing of an answer -/

/-- The pairs that an answer of the router gives, or the kinds of the documents when it has no
items. -/
def routedPairs (R : Reader) (content : Option String) (manifest : List ManifestEntry) :
    Except Raised (List (String × String)) := do
  let items ← routedItems R content
  if items.isEmpty then .ok (pairsByKind manifest) else pairsOfAll R items

theorem docRouter_eq (R : Reader) (active : List String) (content : Option String)
    (manifest : List ManifestEntry) :
    docRouter R active (some content) manifest = (routedPairs R content manifest).map
      (fun pairs => backstop manifest (assignAll (emptyRouting active) pairs)) := by
  simp only [docRouter, routedPairs, bind, Except.bind]
  rcases routedItems R content with e | _ | ⟨item, rest⟩
  · rfl
  · rfl
  · rcases hpairs : pairsOfAll R (item :: rest) with e | pairs
    · simp [hpairs, Except.map]
    · simp [hpairs, Except.map]

/-- What an active agent is given in the end. The backstop has a spare document for those who
have none. -/
def givenTo (spare : Option String) (pairs : List (String × String)) (name : String) :
    List String :=
  if (docsOf pairs name).isEmpty then spare.toList else docsOf pairs name

theorem mem_givenTo {spare : Option String} {pairs : List (String × String)} {name doc : String} :
    doc ∈ givenTo spare pairs name ↔
      doc ∈ docsOf pairs name ∨ docsOf pairs name = [] ∧ spare = some doc := by
  unfold givenTo
  rcases docsOf pairs name with _ | ⟨d, rest⟩ <;> simp

/-- The document that the backstop gives away. -/
def spareOf (manifest : List ManifestEntry) : Option String :=
  manifest.head?.map (fun e => fileName e.path)

theorem get?_backstop {active : List String} (manifest : List ManifestEntry)
    (pairs : List (String × String)) {name : String} (hname : name ∈ active) :
    (backstop manifest (assignAll (emptyRouting active) pairs)).get? name =
      some (givenTo (spareOf manifest) pairs name) := by
  have hassigned : (assignAll (emptyRouting active) pairs).get? name =
      some (docsOf pairs name) := by
    rw [get?_assignAll, get?_emptyRouting, if_pos hname]
    rfl
  rcases manifest with _ | ⟨first, later⟩
  · show (assignAll (emptyRouting active) pairs).get? name = _
    rw [hassigned]
    unfold givenTo
    rcases docsOf pairs name with _ | ⟨d, rest⟩ <;> rfl
  · unfold backstop
    rw [Dict.get?_mapValues, hassigned]
    rfl

/-- Without a provider there is no backstop. -/
theorem get?_classifyNoLlm {active : List String} (manifest : List ManifestEntry) {name : String}
    (hname : name ∈ active) : (classifyNoLlm manifest active).get? name =
      some (givenTo none (pairsByKind manifest) name) := by
  unfold classifyNoLlm givenTo
  rw [get?_assignAll, get?_emptyRouting, if_pos hname]
  rcases docsOf (pairsByKind manifest) name with _ | ⟨d, rest⟩ <;> rfl

/-- The pairs leave out nobody. Who is given something is given a name that the packet knows, and
only the spare document makes up for nothing. Every URI has a name that is given to someone. -/
structure Suffices (active : List String) (packet : Packet) (spare : Option String)
    (pairs : List (String × String)) : Prop where
  known : ∀ name ∈ active, docsOf pairs name ≠ [] ∨ spare = none →
    ∃ doc ∈ docsOf pairs name, ∃ uri, Stands packet doc uri
  given : ∀ e ∈ packet.manifest, ∃ doc, Stands packet doc e.fileUri ∧ ∃ name ∈ active,
    doc ∈ docsOf pairs name ∨ docsOf pairs name = [] ∧ spare = some doc

theorem covered_iff {active : List String} {packet : Packet} {spare : Option String}
    {pairs : List (String × String)} {routing : Routing}
    (hspare : ∀ doc, spare = some doc → ∃ uri, Stands packet doc uri)
    (hrouted : ∀ name ∈ active, routing.get? name = some (givenTo spare pairs name)) :
    Covered active packet.manifest routing packet.fileUris ↔
      Suffices active packet spare pairs := by
  constructor
  · intro h
    refine ⟨?_, ?_⟩
    · intro name hname hsome
      obtain ⟨docs, hdocs, doc, hdoc, e, he, huri⟩ := h.agents name hname
      rw [hrouted name hname] at hdocs
      cases hdocs
      rcases mem_givenTo.mp hdoc with hdoc | ⟨hempty, hgiven⟩
      · exact ⟨doc, hdoc, e.fileUri, (get?_fileUris ..).mp huri⟩
      · rcases hsome with hsome | hnone
        · exact absurd hempty hsome
        · rw [hnone] at hgiven
          cases hgiven
    · intro e he
      obtain ⟨name, hname, docs, hdocs, doc, hdoc, huri⟩ := h.documents e he
      rw [hrouted name hname] at hdocs
      cases hdocs
      exact ⟨doc, (get?_fileUris ..).mp huri, name, hname, mem_givenTo.mp hdoc⟩
  · intro h
    refine ⟨?_, ?_⟩
    · intro name hname
      refine ⟨_, hrouted name hname, ?_⟩
      have hknown : ∃ doc ∈ givenTo spare pairs name, ∃ uri, Stands packet doc uri := by
        by_cases hmade : docsOf pairs name = [] ∧ spare ≠ none
        · obtain ⟨doc, hdoc⟩ := Option.ne_none_iff_exists'.mp hmade.2
          exact ⟨doc, mem_givenTo.mpr (.inr ⟨hmade.1, hdoc⟩), hspare doc hdoc⟩
        · rw [not_and_or, not_not] at hmade
          obtain ⟨doc, hdoc, hstands⟩ := h.known name hname hmade
          exact ⟨doc, mem_givenTo.mpr (.inl hdoc), hstands⟩
      obtain ⟨doc, hdoc, uri, hstands⟩ := hknown
      obtain ⟨e, he, rfl⟩ := hstands.mem_manifest
      exact ⟨doc, hdoc, e, he, (get?_fileUris ..).mpr hstands⟩
    · intro e he
      obtain ⟨doc, hstands, name, hname, hdoc⟩ := h.given e he
      exact ⟨name, hname, _, hrouted name hname, doc, mem_givenTo.mpr hdoc,
        (get?_fileUris ..).mpr hstands⟩

/-! ## Every answer -/

/-- What an answer gives to whom, and the spare document. -/
def assigned (R : Reader) (answer : Option (Option String)) (manifest : List ManifestEntry) :
    Except Raised (List (String × String) × Option String) :=
  match answer with
  | none => .ok (pairsByKind manifest, none)
  | some content =>
    (routedPairs R content manifest).map (fun pairs => (pairs, spareOf manifest))

theorem stands_spare {packet : Packet} {doc : String} (h : spareOf packet.manifest = some doc) :
    ∃ uri, Stands packet doc uri := by
  unfold spareOf at h
  obtain ⟨e, hfirst, rfl⟩ := Option.map_eq_some_iff.mp h
  exact exists_stands (List.mem_of_mem_head? hfirst)

/-- A routing covers the packet if and only if what the answer gives suffices. -/
theorem docRouter_covers_iff {R : Reader} {active : List String} {answer : Option (Option String)}
    {packet : Packet} {docs : Routing} (h : docRouter R active answer packet.manifest = .ok docs) :
    Covered active packet.manifest docs packet.fileUris ↔
      ∃ pairs spare, assigned R answer packet.manifest = .ok (pairs, spare) ∧
        Suffices active packet spare pairs := by
  rcases answer with _ | content
  · obtain rfl := Except.ok.inj h
    rw [covered_iff (by simp) (fun _ hname => get?_classifyNoLlm packet.manifest hname)]
    simp [assigned]
  · rw [docRouter_eq] at h
    rcases hpairs : routedPairs R content packet.manifest with e | pairs
    · rw [hpairs] at h
      cases h
    · rw [hpairs] at h
      obtain rfl := Except.ok.inj h
      rw [covered_iff (fun _ => stands_spare)
        (fun _ hname => get?_backstop packet.manifest pairs hname)]
      simp [assigned, hpairs, Except.map]

end orchestra.tprm.coverage
