-- The guard of the server on the path of a packet (`server/app.py`): the path is resolved under
-- the allowed root, and its text is compared with the text of the root.
import Orchestra.Lib.Paths
import Orchestra.Lib.Text
import Orchestra.Values

open paths texts

namespace orchestra.tprm.packet_paths

/-! ## The guard -/

/-- `_ALLOWED_PACKET_ROOT`, from the variable `PACKET_ROOT` and the directory of the server. -/
def allowedPacketRoot (cwd : Place) (packetRoot : Option String) : Place :=
  resolve cwd (packetRoot.getD ".").toList

/-- `str(path)` -/
def pathText (p : Place) : String := String.ofList p.text

def escapes (root : Place) (raw : String) : Raised :=
  ⟨"ValueError", "packet_path " ++ (Value.str raw).repr ++ " escapes allowed root " ++
    (Value.str (pathText root)).repr, false⟩

/-- No entry of a file system has a null character in its name. -/
def embeddedNull : Raised := ⟨"ValueError", "lstat: embedded null character in path", false⟩

/-- `_validate_packet_path` -/
def validatePacketPath (cwd root : Place) (raw : String) : Except Raised Place :=
  if '\x00' ∈ raw.toList then .error embeddedNull
  else
    let p := resolve cwd (join root.text raw.toList)
    if !startsWith (pathText p) (pathText root) then .error (escapes root raw)
    else .ok p

/-- The path of a request as `run_tprm` hands it on, or the detail of its answer 400. -/
def safePacketPath (cwd root : Place) (raw : String) : Except String String :=
  match validatePacketPath cwd root raw with
  | .error e => .error e.message
  | .ok p => .ok (pathText p)

/-! ## What passes the guard -/

/-- The request leads out of the root, down into a name next to it that goes on where the name of
the root ends, and not out of there. -/
def SlipsBeside (root : Place) (raw : String) : Prop :=
  '\x00' ∉ raw.toList ∧ ∃ parent name more, root.names = parent ++ [name] ∧ more ≠ [] ∧
    Proper (name ++ more) ∧
      (startOf root raw.toList).Enters (raw.toList.splitOn '/') parent (name ++ more)

/-- Where a request leads from the root. -/
def target (root : Place) (raw : String) : Place :=
  (startOf root raw.toList).walk (raw.toList.splitOn '/')

theorem startsWith_pathText (p root : Place) :
    startsWith (pathText p) (pathText root) = true ↔ Place.Below root p ∨ Place.Beside root p := by
  rw [startsWith_iff, pathText, pathText, String.toList_ofList, String.toList_ofList]
  exact Place.text_prefix_iff root p

theorem validatePacketPath_ok_iff {cwd root p : Place} {raw : String} :
    validatePacketPath cwd root raw = .ok p ↔ '\x00' ∉ raw.toList ∧ p = target root raw ∧
      (Place.Below root p ∨ Place.Beside root p) := by
  unfold validatePacketPath
  rw [resolve_join]
  by_cases hnull : '\x00' ∈ raw.toList
  · simp [hnull]
  · rw [if_neg hnull]
    dsimp only
    cases hstarts : startsWith (pathText (target root raw)) (pathText root) with
    | true =>
      have hplace := (startsWith_pathText _ root).mp hstarts
      change startsWith (pathText (Place.walk _ _)) _ = true at hstarts
      rw [hstarts]
      simp only [Bool.not_true, Bool.false_eq_true, if_false, Except.ok.injEq]
      constructor
      · rintro rfl
        exact ⟨hnull, rfl, hplace⟩
      · rintro ⟨-, rfl, -⟩
        rfl
    | false =>
      have hplace := mt (startsWith_pathText (target root raw) root).mpr (by simp [hstarts])
      change startsWith (pathText (Place.walk _ _)) _ = false at hstarts
      rw [hstarts]
      simp only [Bool.not_false, if_true, reduceCtorEq, false_iff]
      rintro ⟨-, rfl, hboth⟩
      exact hplace hboth

/-- A place beside the root is not below it. -/
theorem not_below_of_beside {root p : Place} (h : Place.Beside root p) : ¬ Place.Below root p := by
  obtain ⟨parent, name, more, below, hroot, hmore, hp⟩ := h
  intro hbelow
  unfold Place.Below at hbelow
  rw [hroot, hp, List.prefix_append_right_inj, List.cons_prefix_cons] at hbelow
  exact hmore (by simpa using hbelow.1)

/-- Neither the root nor the top of the file system lies within a directory beside the root. -/
theorem startOf_outside {root : Place} {path : List Char} {parent : List (List Char)}
    {name more : List Char} {rest : List (List Char)} (hroot : root.names = parent ++ [name])
    (hmore : more ≠ []) : (startOf root path).names ≠ parent ++ (name ++ more) :: rest := by
  unfold startOf
  split
  · simp [Place.slash]
  · rw [hroot]
    simp [hmore]

theorem slipsBeside_iff (root : Place) (raw : String) :
    SlipsBeside root raw ↔ '\x00' ∉ raw.toList ∧ Place.Beside root (target root raw) := by
  refine and_congr_right fun _ => ?_
  constructor
  · rintro ⟨parent, name, more, hroot, hmore, hproper, henters⟩
    obtain ⟨below, hbelow⟩ := (Place.ends_within_iff hproper _ _).mpr (.inr henters)
    exact ⟨parent, name, more, below, hroot, hmore, hbelow⟩
  · rintro ⟨parent, name, more, below, hroot, hmore, hbelow⟩
    have hproper : Proper (name ++ more) :=
      (target root raw).proper _ (by rw [hbelow]; exact List.mem_append_right _ List.mem_cons_self)
    rcases (Place.ends_within_iff hproper _ _).mp ⟨below, hbelow⟩ with ⟨rest, hstart, -⟩ | henters
    · exact absurd hstart (startOf_outside hroot hmore)
    · exact ⟨parent, name, more, hroot, hmore, hproper, henters⟩

/-- A directory beside the root, whose name goes on after that of the root, is let through. -/
theorem a_sibling_passes_the_guard :
    ∃ p, validatePacketPath .slash (allowedPacketRoot .slash (some "/srv/packets"))
        "../packets-old/nda.pdf" = .ok p ∧
      pathText p = "/srv/packets-old/nda.pdf" ∧
        ¬ Place.Below (allowedPacketRoot .slash (some "/srv/packets")) p := by
  refine ⟨⟨["srv".toList, "packets-old".toList, "nda.pdf".toList], by decide +kernel⟩, ?_, ?_, ?_⟩
  · decide +kernel
  · decide +kernel
  · unfold Place.Below
    decide +kernel

/-- Every path that the guard accepts is the root or below it if and only if the request does not
slip into a directory beside the root. -/
theorem accepted_paths_are_below_iff (cwd root : Place) (raw : String) :
    (∀ p, validatePacketPath cwd root raw = .ok p → Place.Below root p) ↔
      ¬ SlipsBeside root raw := by
  rw [slipsBeside_iff]
  constructor
  · rintro h ⟨hnull, hbeside⟩
    exact not_below_of_beside hbeside
      (h _ (validatePacketPath_ok_iff.mpr ⟨hnull, rfl, .inr hbeside⟩))
  · intro h p hp
    obtain ⟨hnull, rfl, hplace⟩ := validatePacketPath_ok_iff.mp hp
    exact hplace.resolve_right fun hbeside => h ⟨hnull, hbeside⟩

end orchestra.tprm.packet_paths
