-- Absolute paths of a file system without links: a path is a walk over names, which leads to a
-- place, and what the text of one place says about the text of another.
import Mathlib.Data.List.Infix

namespace paths

/-! ## Places -/

/-- A part of a path that is the name of an entry, and no dots that lead elsewhere. -/
def Proper (part : List Char) : Prop :=
  part ≠ [] ∧ part ≠ ['.'] ∧ part ≠ ['.', '.'] ∧ '/' ∉ part

instance (part : List Char) : Decidable (Proper part) :=
  inferInstanceAs (Decidable (part ≠ [] ∧ part ≠ ['.'] ∧ part ≠ ['.', '.'] ∧ '/' ∉ part))

/-- A place in the file system: the names on the way to it. -/
structure Place where
  names : List (List Char)
  proper : ∀ name ∈ names, Proper name
deriving DecidableEq

namespace Place

variable {p q top : Place}

@[ext] theorem ext_names (h : p.names = q.names) : p = q := by
  cases p
  cases q
  simp only at h
  subst h
  rfl

/-- `/` -/
def slash : Place := ⟨[], by simp⟩

def parent (p : Place) : Place :=
  ⟨p.names.dropLast, fun _ h => p.proper _ (List.mem_of_mem_dropLast h)⟩

def child (p : Place) (name : List Char) (h : Proper name) : Place where
  names := p.names ++ [name]
  proper := by
    intro other hother
    rcases List.mem_append.mp hother with hother | hother
    · exact p.proper other hother
    · exact List.mem_singleton.mp hother ▸ h

/-- One part of a path: down to a name, up at two dots, and nowhere at one dot or at nothing. -/
def step (p : Place) (part : List Char) : Place :=
  if h : Proper part then p.child part h
  else if part = ['.', '.'] then p.parent
  else p

def walk (p : Place) (parts : List (List Char)) : Place := parts.foldl step p

@[simp] theorem walk_nil (p : Place) : p.walk [] = p := rfl

@[simp] theorem walk_cons (p : Place) (part : List Char) (parts : List (List Char)) :
    p.walk (part :: parts) = (p.step part).walk parts := rfl

theorem walk_append (p : Place) (parts more : List (List Char)) :
    p.walk (parts ++ more) = (p.walk parts).walk more := List.foldl_append

theorem step_proper {part : List Char} (h : Proper part) : p.step part = p.child part h :=
  dif_pos h

theorem step_up (p : Place) : p.step ['.', '.'] = p.parent := by
  have h : ¬ Proper ['.', '.'] := by simp [Proper]
  unfold step
  rw [dif_neg h, if_pos rfl]

theorem step_nowhere {part : List Char} (h : ¬ Proper part) (hup : part ≠ ['.', '.']) :
    p.step part = p := by
  unfold step
  rw [dif_neg h, if_neg hup]

@[simp] theorem step_empty (p : Place) : p.step [] = p := step_nowhere (by simp [Proper]) (by simp)

/-- The names of a place lead to it. -/
theorem names_walk {names : List (List Char)} (h : ∀ name ∈ names, Proper name) (p : Place) :
    (p.walk names).names = p.names ++ names := by
  induction names generalizing p with
  | nil => simp
  | cons name rest ih =>
    rw [walk_cons, step_proper (h name List.mem_cons_self),
      ih (fun n hn => h n (List.mem_cons_of_mem _ hn))]
    simp [child]

theorem walk_names (p : Place) : slash.walk p.names = p :=
  ext_names (by rw [names_walk p.proper, slash, List.nil_append])

/-! ## Texts of places -/

/-- `str(path)` -/
def text (p : Place) : List Char :=
  if p.names = [] then ['/'] else p.names.flatMap fun name => '/' :: name

theorem flatMap_slash (names : List (List Char)) :
    (names.flatMap fun name => '/' :: name) = ['/'].intercalate ([] :: names) := by
  induction names with
  | nil => rfl
  | cons name rest ih =>
    rw [List.flatMap_cons, ih]
    cases rest with
    | nil => simp [List.intercalate]
    | cons next more => simp [List.intercalate]

/-- The text of a place leads to it. -/
theorem walk_text (p : Place) : slash.walk (p.text.splitOn '/') = p := by
  unfold text
  split
  · rename_i hnil
    have hparts : List.splitOn '/' ['/'] = [[], []] := by decide
    rw [hparts]
    exact ext_names hnil.symm
  · have hplain : ∀ part ∈ [] :: p.names, '/' ∉ part := by
      intro part hpart
      rcases List.mem_cons.mp hpart with rfl | hpart
      · simp
      · exact (p.proper part hpart).2.2.2
    rw [flatMap_slash, List.splitOn_intercalate '/' hplain (List.cons_ne_nil _ _), walk_cons,
      step_empty]
    exact p.walk_names

/-- The place `p` is `top`, or it is below it. -/
def Below (top p : Place) : Prop := top.names <+: p.names

/-- The place `p` is in a directory next to `top` (or it is this directory), and the name of the
directory goes on where that of `top` ends. -/
def Beside (top p : Place) : Prop :=
  ∃ parent name more below, top.names = parent ++ [name] ∧ more ≠ [] ∧
    p.names = parent ++ (name ++ more) :: below

/-- What follows a name in the text of a place. -/
theorem head_flatMap_slash (names : List (List Char)) :
    ∀ c ∈ (names.flatMap fun name => '/' :: name).head?, c = '/' := by
  cases names with
  | nil => simp
  | cons name rest => simp

/-- A name that starts a text is the start of the name there. -/
theorem prefix_of_name {name other t : List Char} (hname : '/' ∉ name)
    (ht : ∀ c ∈ t.head?, c = '/') (h : name <+: other ++ t) : name <+: other := by
  rcases List.prefix_or_prefix_of_prefix h (List.prefix_append other t) with hle | ⟨u, rfl⟩
  · exact hle
  · have hu : u <+: t := (List.prefix_append_right_inj other).mp h
    cases u with
    | nil => simp
    | cons c u =>
      obtain ⟨v, rfl⟩ := hu
      have hc : c = '/' := ht c (by simp)
      exact absurd (by simp [hc]) hname

theorem flatMap_prefix_iff {names others : List (List Char)} (hne : names ≠ [])
    (hnames : ∀ name ∈ names, '/' ∉ name) (hothers : ∀ name ∈ others, '/' ∉ name) :
    (names.flatMap fun name => '/' :: name) <+: (others.flatMap fun name => '/' :: name) ↔
      names <+: others ∨ ∃ parent name more below, names = parent ++ [name] ∧ more ≠ [] ∧
        others = parent ++ (name ++ more) :: below := by
  induction names generalizing others with
  | nil => exact absurd rfl hne
  | cons name rest ih =>
    cases others with
    | nil => simp
    | cons other later =>
      have hname := hnames name List.mem_cons_self
      have hother := hothers other List.mem_cons_self
      simp only [List.flatMap_cons, List.cons_append, List.cons_prefix_cons, true_and]
      cases rest with
      | nil =>
        rw [List.flatMap_nil, List.append_nil]
        constructor
        · intro h
          obtain ⟨more, rfl⟩ := prefix_of_name hname (head_flatMap_slash later) h
          cases more with
          | nil => exact .inl (by simp)
          | cons c more => exact .inr ⟨[], name, c :: more, later, rfl, List.cons_ne_nil _ _, rfl⟩
        · rintro (⟨rfl, -⟩ | ⟨parent, last, more, below, hparts, -, hbeside⟩)
          · exact List.prefix_append _ _
          · obtain ⟨rfl, hlast⟩ := List.append_eq_singleton_iff.mp hparts.symm |>.resolve_right
              (by simp)
            obtain rfl := List.singleton_inj.mp hlast
            rw [List.nil_append, List.cons.injEq] at hbeside
            rw [hbeside.1, List.append_assoc]
            exact List.prefix_append _ _
      | cons next more =>
        have hrest : ∀ n ∈ next :: more, '/' ∉ n := fun n hn =>
          hnames n (List.mem_cons_of_mem _ hn)
        have hlater : ∀ n ∈ later, '/' ∉ n := fun n hn => hothers n (List.mem_cons_of_mem _ hn)
        have hih := ih (List.cons_ne_nil _ _) hrest hlater
        constructor
        · intro h
          have hsame : name = other := by
            have hle := prefix_of_name hname (head_flatMap_slash later)
              ((List.prefix_append _ _).trans h)
            obtain ⟨u, rfl⟩ := hle
            cases u with
            | nil => simp
            | cons c u =>
              rw [List.append_assoc, List.prefix_append_right_inj] at h
              rw [List.flatMap_cons, List.cons_append, List.cons_append,
                List.cons_prefix_cons] at h
              exact absurd (by simp [← h.1]) hother
          subst hsame
          rw [List.prefix_append_right_inj] at h
          rcases hih.mp h with hbelow | ⟨parent, last, longer, below, hparts, hlonger, hbeside⟩
          · exact .inl ⟨rfl, hbelow⟩
          · exact .inr ⟨name :: parent, last, longer, below, by rw [hparts, List.cons_append],
              hlonger, by rw [hbeside, List.cons_append]⟩
        · rintro (⟨rfl, hbelow⟩ | ⟨parent, last, longer, below, hparts, hlonger, hbeside⟩)
          · rw [List.prefix_append_right_inj]
            exact hih.mpr (.inl hbelow)
          · cases parent with
            | nil => simp at hparts
            | cons first parent =>
              rw [List.cons_append, List.cons.injEq] at hparts hbeside
              obtain ⟨rfl, hparts⟩ := hparts
              obtain ⟨rfl, hbeside⟩ := hbeside
              rw [List.prefix_append_right_inj]
              exact hih.mpr (.inr ⟨parent, last, longer, below, hparts, hlonger, hbeside⟩)

/-- The text of a place starts with that of `top` for the places below `top`, and for those beside
it. -/
theorem text_prefix_iff (top p : Place) : top.text <+: p.text ↔ Below top p ∨ Beside top p := by
  unfold text Below Beside
  have htop : ∀ name ∈ top.names, '/' ∉ name := fun name h => (top.proper name h).2.2.2
  have hp : ∀ name ∈ p.names, '/' ∉ name := fun name h => (p.proper name h).2.2.2
  by_cases hslash : top.names = []
  · rw [if_pos hslash, hslash]
    refine iff_of_true ?_ (.inl List.nil_prefix)
    split
    · exact List.prefix_rfl
    · rename_i hne
      obtain ⟨name, rest, hnames⟩ := List.exists_cons_of_ne_nil hne
      rw [hnames, List.flatMap_cons, List.cons_append]
      exact ⟨_, rfl⟩
  · rw [if_neg hslash, ← flatMap_prefix_iff hslash htop hp]
    by_cases hnil : p.names = []
    · rw [if_pos hnil, hnil, List.flatMap_nil]
      obtain ⟨name, rest, hnames⟩ := List.exists_cons_of_ne_nil hslash
      have hname := (top.proper name (by rw [hnames]; exact List.mem_cons_self)).1
      rw [hnames, List.flatMap_cons, List.cons_append]
      simp [hname]
    · rw [if_neg hnil]

/-! ## Where a walk comes to -/

/-- A walk from `depth` names below a directory does not leave the directory. -/
def Stays : Nat → List (List Char) → Prop
  | _, [] => True
  | depth, part :: parts =>
    if Proper part then Stays (depth + 1) parts
    else if part = ['.', '.'] then 0 < depth ∧ Stays (depth - 1) parts
    else Stays depth parts

theorem stays_proper {part : List Char} (h : Proper part) (depth : Nat)
    (parts : List (List Char)) : Stays depth (part :: parts) ↔ Stays (depth + 1) parts := by
  rw [Stays, if_pos h]

theorem stays_up (depth : Nat) (parts : List (List Char)) :
    Stays depth (['.', '.'] :: parts) ↔ 0 < depth ∧ Stays (depth - 1) parts := by
  have h : ¬ Proper ['.', '.'] := by simp [Proper]
  rw [Stays, if_neg h, if_pos rfl]

theorem stays_nowhere {part : List Char} (h : ¬ Proper part) (hup : part ≠ ['.', '.'])
    (depth : Nat) (parts : List (List Char)) :
    Stays depth (part :: parts) ↔ Stays depth parts := by
  rw [Stays, if_neg h, if_neg hup]

/-- On its way a walk comes to the directory `parent`, goes down into `name` there, and does not
leave it again. -/
def Enters (start : Place) (parts : List (List Char)) (parent : List (List Char))
    (name : List Char) : Prop :=
  ∃ up down, parts = up ++ name :: down ∧ (start.walk up).names = parent ∧ Stays 0 down

theorem enters_cons {start : Place} {part : List Char} {parts parent : List (List Char)}
    {name : List Char} : Enters start (part :: parts) parent name ↔
      part = name ∧ start.names = parent ∧ Stays 0 parts ∨
        Enters (start.step part) parts parent name := by
  constructor
  · rintro ⟨up, down, hparts, hparent, hstays⟩
    cases up with
    | nil =>
      obtain ⟨rfl, rfl⟩ := List.cons.inj hparts
      exact .inl ⟨rfl, hparent, hstays⟩
    | cons first up =>
      obtain ⟨rfl, rfl⟩ := List.cons.inj hparts
      exact .inr ⟨up, down, rfl, hparent, hstays⟩
  · rintro (⟨rfl, hparent, hstays⟩ | ⟨up, down, rfl, hparent, hstays⟩)
    · exact ⟨[], parts, rfl, hparent, hstays⟩
    · exact ⟨part :: up, down, rfl, hparent, hstays⟩

/-- A walk ends within a directory if it starts there and stays, or enters it for good. -/
theorem ends_within_iff {parent : List (List Char)} {name : List Char} (hname : Proper name)
    (start : Place) (parts : List (List Char)) :
    (∃ below, (start.walk parts).names = parent ++ name :: below) ↔
      (∃ below, start.names = parent ++ name :: below ∧ Stays below.length parts) ∨
        Enters start parts parent name := by
  induction parts generalizing start with
  | nil => simp [Enters, Stays]
  | cons part parts ih =>
    rw [walk_cons, ih, enters_cons, ← or_assoc]
    refine or_congr_left ?_
    by_cases hproper : Proper part
    · simp only [step_proper hproper, stays_proper hproper, child]
      constructor
      · rintro ⟨below, hbelow, hstays⟩
        rcases List.eq_nil_or_concat' below with rfl | ⟨below, last, rfl⟩
        · obtain ⟨hparent, hpart⟩ := List.append_inj' hbelow rfl
          exact .inr ⟨List.singleton_inj.mp hpart, hparent, hstays⟩
        · rw [← List.cons_append, ← List.append_assoc] at hbelow
          obtain ⟨hnames, -⟩ := List.append_inj' hbelow rfl
          rw [List.length_append] at hstays
          exact .inl ⟨below, hnames, hstays⟩
      · rintro (⟨below, hbelow, hstays⟩ | ⟨rfl, hparent, hstays⟩)
        · exact ⟨below ++ [part], by rw [hbelow]; simp, by simpa using hstays⟩
        · exact ⟨[], by rw [hparent], hstays⟩
    · have hother : part ≠ name := fun h => hproper (h ▸ hname)
      simp only [hother, false_and, or_false]
      by_cases hup : part = ['.', '.']
      · subst hup
        simp only [step_up, stays_up, Place.parent]
        constructor
        · rintro ⟨below, hbelow, hstays⟩
          rcases List.eq_nil_or_concat' start.names with hnil | ⟨names, last, hnames⟩
          · rw [hnil] at hbelow
            simp at hbelow
          · rw [hnames, List.dropLast_concat] at hbelow
            exact ⟨below ++ [last], by rw [hnames, hbelow]; simp, by simp, by simpa using hstays⟩
        · rintro ⟨below, hbelow, hdepth, hstays⟩
          rcases List.eq_nil_or_concat' below with rfl | ⟨below, last, rfl⟩
          · cases hdepth
          · refine ⟨below, ?_, by simpa using hstays⟩
            rw [hbelow, ← List.cons_append, ← List.append_assoc, List.dropLast_concat]
      · simp only [step_nowhere hproper hup, stays_nowhere hproper hup]

end Place

/-! ## Texts of paths -/

/-- `posixpath.join(base, path)` -/
def join (base path : List Char) : List Char :=
  if path.head? = some '/' then path
  else if base = [] ∨ base.getLast? = some '/' then base ++ path
  else base ++ '/' :: path

/-- Where the walk along a path starts. -/
def startOf (base : Place) (path : List Char) : Place :=
  if path.head? = some '/' then .slash else base

/-- `Path(path).resolve()`, in the directory `cwd`. -/
def resolve (cwd : Place) (path : List Char) : Place := (startOf cwd path).walk (path.splitOn '/')

theorem head_text (p : Place) : p.text.head? = some '/' := by
  unfold Place.text
  split
  · rfl
  · rename_i hne
    obtain ⟨name, rest, hnames⟩ := List.exists_cons_of_ne_nil hne
    rw [hnames]
    rfl

/-- A path that is joined to a place is walked from there, or from the top where it begins with a
slash. -/
theorem resolve_join (cwd base : Place) (path : List Char) :
    resolve cwd (join base.text path) = (startOf base path).walk (path.splitOn '/') := by
  unfold join
  by_cases habs : path.head? = some '/'
  · rw [if_pos habs]
    simp only [resolve, startOf, if_pos habs]
  · have hjoined (more : List Char) : startOf cwd (base.text ++ more) = .slash := by
      unfold startOf
      rw [List.head?_append_of_ne_nil _ (by simpa using congrArg Option.isSome (head_text base)),
        head_text, if_pos rfl]
    have hstart : startOf base path = base := if_neg habs
    have htext : base.text ≠ [] := by
      intro hnil
      have hhead := head_text base
      rw [hnil] at hhead
      cases hhead
    rw [if_neg habs, hstart]
    split
    · rename_i hends
      obtain ⟨text, htext'⟩ := List.getLast?_eq_some_iff.mp (hends.resolve_left htext)
      have hbase := base.walk_text
      rw [htext', List.splitOn_append_cons_self, Place.walk_append] at hbase
      unfold resolve
      rw [hjoined, htext', List.append_assoc, List.singleton_append, List.splitOn_append_cons_self,
        Place.walk_append]
      have hsame : Place.slash.walk (text.splitOn '/') = base := by simpa using hbase
      rw [hsame]
    · unfold resolve
      rw [hjoined, List.splitOn_append_cons_self, Place.walk_append, base.walk_text]

end paths
