-- No update is lost to an eviction, as long as no task has another value of the key
-- in hand when it is stored, and none finds one in a backend after that. A demotion
-- writes and removes what it has read before.
import Orchestra.Recall
import Orchestra.TieredTasks

open dicts machine programs Program orchestra.tiers orchestra.recall orchestra.tiered_tasks

namespace orchestra.demotions

variable {V : Type}

/-! ## The law -/

/-- Any call may be started at any time, but the key is stored with one value only.
Both backends are there. -/
def tasks (dedup : Bool) (key : String) (value : V) :
    System (TieredMemoryManager V) Empty (MemoryCall V) (Ask V) Answer Empty (Option V) where
  init m := Has ⟨true, true, dedup⟩ m ∧ Fits m.policy
  code := code ⟨true, true, dedup⟩
  opens _ called := ∀ v, called = .store key v → v = value
  serves m e m' := perform m e.1 = (m', e.2)
  turns _ t _ := nomatch t

/-- The tasks of the memory. -/
abbrev Tasks (V : Type) : Type :=
  Pool (TieredMemoryManager V) (MemoryCall V) (Ask V) Answer Empty (Option V)

/-- When the key was stored and all tasks are done, a retrieve finds the value. -/
def NoUpdateLost (key : String) (value : V) (P : Tasks V) : Prop :=
  (∃ task ∈ P.tasks, task.job = .store key value) → (∀ task ∈ P.tasks, task.code.ended = true) →
    ∀ promote, (P.shared.retrieve key promote).2 = some value

/-! ## What a task has in hand -/

/-- What a task has read of the key in a look that it goes on from, or has moved to
the cold backend and is to remove. -/
inductive Grip (V : Type)
  | nothing
  | read (v : V)
  | readCold (v : V)
  | moved (v : V)

/-- `owes` is what it is to set in the warm backend, `entered` that it has stored the
key in the policy. -/
structure Hand (V : Type) where
  grip : Grip V
  owes : Option V
  entered : Bool

def emptyHand : Hand V := ⟨.nothing, none, false⟩

/-- What is in hand after a look into a segment. What a promoting retrieve finds there
it leaves there. -/
def afterLook (h : Hand V) (promote : Bool) : Option V → Hand V
  | some v => { h with grip := if promote then .nothing else .read v }
  | none => { h with grip := .nothing }

/-- The hand after the answer to a question about the key. -/
def noteKey (h : Hand V) : Answered (Ask V) Answer → Hand V
  | ⟨.lookHot _ promote, a⟩ | ⟨.lookWarm _ promote, a⟩ => afterLook h promote a.1
  | ⟨.warmGet _, some v⟩ => { h with grip := .read v }
  | ⟨.coldRetrieve _, some v⟩ => { h with grip := .readCold v }
  | ⟨.insert _ v, _⟩ => { h with owes := some v, entered := true }
  | ⟨.takeUp _ _, _⟩ =>
    match h.grip with
    | .readCold v => { h with grip := .nothing, owes := some v }
    | _ => { h with grip := .nothing }
  | ⟨.warmSet _ _, _⟩ => { h with owes := none }
  | ⟨.coldStore _ v, _⟩ => { h with grip := .moved v }
  | ⟨.warmDelete _, _⟩ => { h with grip := .nothing }
  | _ => h

/-- The key that a question is about. -/
def keyOf : Ask V → Option String
  | .lookHot key _ | .lookWarm key _ | .insert key _ | .takeUp key _ | .remove key | .warmGet key
  | .warmSet key _ | .warmDelete key | .coldRetrieve key | .coldStore key _ => some key
  | .embed _ => none

/-- A retrieve that does not promote: it changes nothing, whatever it reads. -/
def onlyLooks : MemoryCall V → Bool
  | .retrieve _ false => true
  | _ => false

def note (key : String) (called : MemoryCall V) (h : Hand V) (e : Answered (Ask V) Answer) :
    Hand V :=
  if onlyLooks called = false ∧ keyOf e.1 = some key then noteKey h e else h

/-- A task writes of the key what it has in hand, and removes what it has moved. -/
def mayKey (h : Hand V) : Ask V → Prop
  | .takeUp _ v | .coldStore _ v => h.grip = .read v ∨ h.grip = .readCold v
  | .warmSet _ v => h.owes = some v
  | .remove _ | .warmDelete _ => ∃ v, h.grip = .moved v
  | _ => True

def may (key : String) (called : MemoryCall V) (h : Hand V) (q : Ask V) : Prop :=
  (keyOf q = some key → mayKey h q) ∧ ∀ v, q = .insert key v → called = .store key v

/-- A look without promotion evicts nothing. -/
def Quiet : Answered (Ask V) Answer → Prop
  | ⟨.lookHot _ false, a⟩ | ⟨.lookWarm _ false, a⟩ => a.2 = []
  | _ => True

/-- What a task goes by. -/
def handling (key : String) (called : MemoryCall V) : Terms (Ask V) Answer (Hand V) where
  note := note key called
  given _ e := Quiet e
  may := may key called

def handOf (key : String) (task : Task (MemoryCall V) (Ask V) Answer Empty (Option V)) : Hand V :=
  task.trace.foldl (note key task.job) emptyHand

/-! ## What the programs keep -/

section programs

variable {key : String} {called : MemoryCall V} {c : Parts} {α : Type}

/-- The question is about another key, or about none. -/
def Other (key : String) (q : Ask V) : Prop := keyOf q ≠ some key

theorem note_other {h : Hand V} {e : Answered (Ask V) Answer} (he : Other key e.1) :
    note key called h e = h := by
  unfold note
  rw [if_neg (fun hboth => he hboth.2)]

theorem may_other {h : Hand V} {q : Ask V} (hq : Other key q) : may key called h q := by
  refine ⟨fun hsame => absurd hsame hq, fun v hv => ?_⟩
  subst hv
  exact absurd rfl hq

/-- A program about other keys leaves the hand as it is. -/
theorem keeps_other {p : Code V α} {h : Hand V} (hp : Asks (Other key) p) :
    Keeps (handling key called) (fun h' _ => h' = h) h p :=
  hp.keeps (fun _ hq => may_other hq) (fun _ _ hq _ => note_other hq)

theorem asks_onlyIf {ok : Ask V → Prop} {b : Bool} {p : Code V Unit} (hp : Asks ok p) :
    Asks ok (onlyIf b p) := by
  unfold onlyIf
  cases b with
  | true => exact hp
  | false => exact asks_pure ()

/-- The questions of a look, whose value only a promotion puts into the policy. -/
theorem asks_look {ok : Ask V → Prop} {j : String} (hhot : ok (.lookHot j false))
    (hwarm : ok (.lookWarm j false)) (hget : ok (.warmGet j)) (hcold : ok (.coldRetrieve j)) :
    Asks ok (retrieveWith c (fun _ => pure ()) j false : Code V (Option V)) := by
  unfold retrieveWith
  refine asks_bind (asks_query hhot) (fun hot => ?_)
  split
  · exact asks_pure _
  · refine asks_bind (asks_query hwarm) (fun warm => ?_)
    split
    · exact asks_pure _
    · have hwarmGet : Asks ok (warmGet c j : Code V (Option V)) := by
        unfold warmGet
        split
        · exact asks_query hget
        · exact asks_pure none
      have hcoldRetrieve : Asks ok (coldRetrieve c j : Code V (Option V)) := by
        unfold coldRetrieve
        split
        · exact asks_query hcold
        · exact asks_pure none
      refine asks_bind hwarmGet (fun kept => ?_)
      split
      · exact asks_pure _
      · refine asks_bind hcoldRetrieve (fun stored => ?_)
        split
        · exact asks_pure _
        · exact asks_pure none

theorem asks_demote {j : String} (hj : j ≠ key) (toTier : Tier) :
    Asks (Other key) (demote c j toTier : Code V Unit) := by
  have hother : some j ≠ some key := fun h => hj (Option.some.inj h)
  unfold demote
  apply asks_onlyIf
  refine asks_bind (asks_look hother hother hother hother) (fun found => ?_)
  split
  · unfold moveDown
    refine asks_bind (asks_onlyIf (asks_query ?_)) (fun _ => ?_)
    · exact fun h => nomatch h
    · refine asks_bind (asks_query hother) (fun _ => ?_)
      refine asks_bind (asks_query hother) (fun _ => ?_)
      exact asks_onlyIf (asks_query hother)
  · exact asks_pure ()

theorem note_key {h : Hand V} {q : Ask V} {a : Answer q} (hcalled : onlyLooks called = false)
    (hq : keyOf q = some key) : note key called h ⟨q, a⟩ = noteKey h ⟨q, a⟩ := by
  unfold note
  rw [if_pos ⟨hcalled, hq⟩]

/-- A question about the key, and what follows its answer. -/
theorem keeps_key {post : Hand V → Except Empty α → Prop} {h : Hand V} {q : Ask V}
    {next : Answer q → Code V α} (hcalled : onlyLooks called = false) (hq : keyOf q = some key)
    (hmay : mayKey h q) (hinsert : ∀ v, q = .insert key v → called = .store key v)
    (hnext : ∀ a, Keeps (handling key called) post (noteKey h ⟨q, a⟩) (next a)) :
    Keeps (handling key called) post h (query q >>= next) := by
  refine keeps_ask ⟨fun _ => hmay, hinsert⟩ (fun a _ => ?_)
  have hnote : (handling key called).note h ⟨q, a⟩ = noteKey h ⟨q, a⟩ := note_key hcalled hq
  rw [hnote]
  exact hnext a

theorem keeps_key_last {q : Ask V} {post : Hand V → Except Empty (Answer q) → Prop} {h : Hand V}
    (hcalled : onlyLooks called = false) (hq : keyOf q = some key) (hmay : mayKey h q)
    (hinsert : ∀ v, q = .insert key v → called = .store key v)
    (hpost : ∀ a, post (noteKey h ⟨q, a⟩) (.ok a)) :
    Keeps (handling key called) post h (query q) := by
  refine keeps_query ⟨fun _ => hmay, hinsert⟩ (fun a _ => ?_)
  have hnote : (handling key called).note h ⟨q, a⟩ = noteKey h ⟨q, a⟩ := note_key hcalled hq
  rw [hnote]
  exact hpost a

/-- What the warm backend is owed stays as it is. -/
def Settles (h : Hand V) (h' : Hand V) (_ : Except Empty α) : Prop :=
  h'.owes = h.owes ∧ h'.entered = h.entered

/-- A look ends with what it has found in hand. -/
def Looks (h : Hand V) (h' : Hand V) : Except Empty (Option V) → Prop
  | .ok (some v) => (h'.grip = .read v ∨ h'.grip = .readCold v) ∧ h'.owes = h.owes ∧
    h'.entered = h.entered
  | _ => h'.owes = h.owes ∧ h'.entered = h.entered

theorem keeps_look (dedup : Bool) (hcalled : onlyLooks called = false) (h : Hand V) :
    Keeps (handling key called) (Looks h) h
      (retrieveWith ⟨true, true, dedup⟩ (fun _ => pure ()) key false) := by
  unfold retrieveWith
  refine keeps_key hcalled rfl trivial (by simp) (fun hot => ?_)
  obtain ⟨hot, evictions⟩ := hot
  rcases hot with _ | v
  · refine keeps_key hcalled rfl trivial (by simp) (fun warm => ?_)
    obtain ⟨warm, evictions⟩ := warm
    rcases warm with _ | v
    · refine keeps_key hcalled rfl trivial (by simp) (fun kept => ?_)
      rcases kept with _ | v
      · refine keeps_key hcalled rfl trivial (by simp) (fun stored => ?_)
        rcases stored with _ | v
        · exact ⟨rfl, rfl⟩
        · exact ⟨.inr rfl, rfl, rfl⟩
      · exact ⟨.inl rfl, rfl, rfl⟩
    · exact ⟨.inl rfl, rfl, rfl⟩
  · exact ⟨.inl rfl, rfl, rfl⟩

theorem keeps_moveDown (dedup : Bool) (hcalled : onlyLooks called = false) {h : Hand V} {v : V}
    (hgrip : h.grip = .read v ∨ h.grip = .readCold v) :
    Keeps (handling key called) (Settles h) h (moveDown ⟨true, true, dedup⟩ key v) := by
  have hembed : Asks (Other key) (onlyIf dedup (query (.embed v : Ask V))) :=
    asks_onlyIf (asks_query (fun h => nomatch h))
  unfold moveDown
  refine (keeps_other hembed).andThen (fun h' _ hsame => ?_) (fun h' e _ => nomatch e)
  subst hsame
  refine keeps_key hcalled rfl hgrip (by simp) (fun _ => ?_)
  refine keeps_key hcalled rfl ⟨v, rfl⟩ (by simp) (fun _ => ?_)
  exact keeps_key_last hcalled rfl ⟨v, rfl⟩ (by simp) (fun _ => ⟨rfl, rfl⟩)

theorem keeps_demote (dedup : Bool) (hcalled : onlyLooks called = false) (j : String)
    (toTier : Tier) (h : Hand V) :
    Keeps (handling key called) (Settles h) h (demote ⟨true, true, dedup⟩ j toTier) := by
  by_cases hj : j = key
  · subst hj
    unfold demote onlyIf
    split
    · refine (keeps_look dedup hcalled h).andThen (fun h' found hlooks => ?_)
        (fun h' e _ => nomatch e)
      rcases found with _ | v
      · exact hlooks
      · obtain ⟨hgrip, howes, hentered⟩ := hlooks
        refine (keeps_moveDown dedup hcalled hgrip).weaken (fun h'' r hsettles => ?_)
        exact ⟨hsettles.1.trans howes, hsettles.2.trans hentered⟩
    · exact ⟨rfl, rfl⟩
  · refine (keeps_other (asks_demote hj toTier)).weaken (fun h' r hsame => ?_)
    rw [hsame]
    exact ⟨rfl, rfl⟩

theorem keeps_handleEvictions (dedup : Bool) (hcalled : onlyLooks called = false)
    (evictions : List (String × Tier)) (h : Hand V) :
    Keeps (handling key called) (Settles h) h (handleEvictions ⟨true, true, dedup⟩ evictions) := by
  induction evictions generalizing h with
  | nil => exact ⟨rfl, rfl⟩
  | cons e rest ih =>
    obtain ⟨j, toTier⟩ := e
    have hfirst : Keeps (handling key called) (Settles h) h
        (onlyIf (toTier = .cold) (demote ⟨true, true, dedup⟩ j .cold)) := by
      unfold onlyIf
      split
      · exact keeps_demote dedup hcalled j .cold h
      · exact ⟨rfl, rfl⟩
    unfold handleEvictions
    refine hfirst.andThen (fun h' _ hsettles => ?_) (fun h' e _ => e.elim)
    refine (ih h').weaken (fun h'' r hsettles' => ?_)
    exact ⟨hsettles'.1.trans hsettles.1, hsettles'.2.trans hsettles.2⟩

/-- A question that may be asked, and what follows its answer. -/
theorem keeps_about {post : Hand V → Except Empty α → Prop} {h : Hand V} {q : Ask V}
    {next : Answer q → Code V α} (hmay : may key called h q)
    (hnext : ∀ a, Keeps (handling key called) post (note key called h ⟨q, a⟩) (next a)) :
    Keeps (handling key called) post h (query q >>= next) :=
  keeps_ask hmay (fun a _ => hnext a)

theorem may_about {h : Hand V} {q : Ask V} (hmay : keyOf q = some key → mayKey h q)
    (hinsert : ∀ v, q ≠ .insert key v) : may key called h q :=
  ⟨hmay, fun v hv => absurd hv (hinsert v)⟩

/-- The value of a backend goes into the policy. -/
theorem keeps_takeUp (dedup : Bool) (hcalled : onlyLooks called = false) {j : String} {v : V}
    {h : Hand V} (hgrip : j = key → h.grip = .read v ∨ h.grip = .readCold v) :
    Keeps (handling key called)
      (fun h' _ => j = key → h.grip = .readCold v → h'.owes = some v) h
      (takeUp (handleEvictions ⟨true, true, dedup⟩) j v) := by
  unfold takeUp
  refine keeps_about (may_about (fun hkey => hgrip (Option.some.inj hkey)) (by simp))
    (fun evictions => ?_)
  refine (keeps_handleEvictions dedup hcalled evictions _).weaken (fun h' _ hsettles hj hcold => ?_)
  rw [hsettles.1, note_key (q := .takeUp j v) hcalled (congrArg some hj)]
  simp only [noteKey, hcold]

/-- A promoting retrieve. From the cold backend the value also goes to the warm one. -/
theorem keeps_retrieve (dedup : Bool) (hcalled : onlyLooks called = false) (j : String)
    (h : Hand V) :
    Keeps (handling key called) (fun _ _ => True) h (retrieve ⟨true, true, dedup⟩ j true) := by
  have hhandle (evictions : List (String × Tier)) (v : V) (h' : Hand V) :
      Keeps (handling key called) (fun _ _ => True) h'
        (handleEvictions ⟨true, true, dedup⟩ evictions >>= fun _ => pure (some v)) :=
    (keeps_handleEvictions dedup hcalled evictions h').andThen (fun _ _ _ => trivial)
      (fun _ e _ => nomatch e)
  unfold retrieve retrieveWith
  refine keeps_about (may_about (fun _ => trivial) (by simp)) (fun hot => ?_)
  obtain ⟨hot, evictions⟩ := hot
  rcases hot with _ | v
  · refine keeps_about (may_about (fun _ => trivial) (by simp)) (fun warm => ?_)
    obtain ⟨warm, evictions⟩ := warm
    rcases warm with _ | v
    · refine keeps_about (may_about (fun _ => trivial) (by simp)) (fun kept => ?_)
      rcases kept with _ | v
      · refine keeps_about (may_about (fun _ => trivial) (by simp)) (fun stored => ?_)
        rcases stored with _ | v
        · trivial
        · generalize hhand : note key called _ ⟨.coldRetrieve j, some v⟩ = h'
          have hgrip : j = key → h'.grip = .readCold v := by
            intro hj
            rw [← hhand, note_key (q := .coldRetrieve j) hcalled (congrArg some hj)]
            rfl
          have htaken := keeps_takeUp dedup hcalled (fun hj => .inr (hgrip hj))
          have hall : Keeps (handling key called)
              (fun h'' _ => j = key → h''.owes = some v) h'
              (takeUp (handleEvictions ⟨true, true, dedup⟩) j v) :=
            htaken.weaken (fun h'' r howes hj => howes hj (hgrip hj))
          have hset : Keeps (handling key called) (fun _ _ => True) h'
              (takeUp (handleEvictions ⟨true, true, dedup⟩) j v >>= fun _ =>
                warmSet ⟨true, true, dedup⟩ j v) := by
            refine hall.andThen (fun h'' _ howes => ?_) (fun _ e _ => nomatch e)
            refine keeps_query (may_about (fun hkey => ?_) (by simp)) (fun _ _ => trivial)
            exact howes (Option.some.inj hkey)
          exact hset.andThen (fun _ _ _ => trivial) (fun _ e _ => nomatch e)
      · generalize hhand : note key called _ ⟨.warmGet j, some v⟩ = h'
        have hgrip : j = key → h'.grip = .read v := by
          intro hj
          rw [← hhand, note_key (q := .warmGet j) hcalled (congrArg some hj)]
          rfl
        refine (keeps_takeUp dedup hcalled (fun hj => .inl (hgrip hj))).andThen
          (fun _ _ _ => trivial) (fun _ e _ => nomatch e)
    · exact hhandle evictions v _
  · exact hhandle evictions v _

/-- A retrieve that does not promote only reads. -/
theorem keeps_plain (dedup : Bool) (j : String) (h : Hand V) :
    Keeps (handling key called) (fun _ _ => True) h (retrieve ⟨true, true, dedup⟩ j false) := by
  unfold retrieve retrieveWith
  refine keeps_ask (may_about (q := .lookHot j false) (fun _ => trivial) (by simp))
    (fun hot hquiet => ?_)
  obtain ⟨hot, evictions⟩ := hot
  cases hquiet
  rcases hot with _ | v
  · refine keeps_ask (may_about (q := .lookWarm j false) (fun _ => trivial) (by simp))
      (fun warm hquiet => ?_)
    obtain ⟨warm, evictions⟩ := warm
    cases hquiet
    rcases warm with _ | v
    · refine keeps_about (may_about (fun _ => trivial) (by simp)) (fun kept => ?_)
      rcases kept with _ | v
      · refine keeps_about (may_about (fun _ => trivial) (by simp)) (fun stored => ?_)
        rcases stored with _ | v <;> trivial
      · trivial
    · trivial
  · trivial

/-- A task that stored the key has put the value into the policy and owes nothing. -/
def Done (key : String) (called : MemoryCall V) (h : Hand V) (_ : Except Empty (Option V)) : Prop :=
  ∀ v, called = .store key v → h.entered = true ∧ h.owes = none

theorem keeps_store (dedup : Bool) (j : String) (v : V) (h : Hand V) :
    Keeps (handling key (.store j v)) (fun h' _ => j = key → h'.entered = true ∧ h'.owes = none) h
      (store ⟨true, true, dedup⟩ j v) := by
  have hcalled : onlyLooks (.store j v) = false := rfl
  have hinsert : may key (.store j v) h (.insert j v) := by
    refine ⟨fun _ => trivial, fun w hw => ?_⟩
    cases hw
    rfl
  unfold store
  refine keeps_about hinsert (fun evictions => ?_)
  generalize hhand : note key (.store j v) h ⟨.insert j v, evictions⟩ = h'
  have hafter : j = key → h'.entered = true ∧ h'.owes = some v := by
    intro hj
    rw [← hhand, note_key (q := .insert j v) hcalled (congrArg some hj)]
    exact ⟨rfl, rfl⟩
  refine keeps_about (q := .warmSet j v)
    (may_about (fun hkey => (hafter (Option.some.inj hkey)).2) (by simp)) (fun _ => ?_)
  refine (keeps_handleEvictions dedup hcalled evictions _).weaken (fun h'' r hsettles hj => ?_)
  rw [hsettles.1, hsettles.2, note_key (q := .warmSet j v) hcalled (congrArg some hj)]
  exact ⟨(hafter hj).1, rfl⟩

theorem keeps_code (dedup : Bool) (called : MemoryCall V) :
    Keeps (handling key called) (Done key called) emptyHand (code ⟨true, true, dedup⟩ called) := by
  cases called with
  | store j v =>
    refine (keeps_store dedup j v emptyHand).andThen (fun h _ hdone w hw => ?_)
      (fun _ e _ => nomatch e)
    cases hw
    exact hdone rfl
  | retrieve j promote =>
    cases promote with
    | true => exact (keeps_retrieve dedup rfl j emptyHand).weaken (fun _ _ _ _ hw => nomatch hw)
    | false => exact (keeps_plain dedup j emptyHand).weaken (fun _ _ _ _ hw => nomatch hw)
  | promote j toTier =>
    have hpromote : Keeps (handling key (.promote j toTier)) (fun _ _ => True) (emptyHand : Hand V)
        (promote ⟨true, true, dedup⟩ j toTier) := by
      unfold promote onlyIf
      split
      · exact (keeps_retrieve dedup rfl j emptyHand).andThen (fun _ _ _ => trivial)
          (fun _ e _ => nomatch e)
      · trivial
    exact hpromote.andThen (fun _ _ _ _ hw => nomatch hw) (fun _ e _ => nomatch e)
  | demote j toTier =>
    exact (keeps_demote dedup rfl j toTier emptyHand).andThen (fun _ _ _ _ hw => nomatch hw)
      (fun _ e _ => nomatch e)

end programs

/-! ## What a step does to the copies of a key -/

def warmCopy (m : TieredMemoryManager V) (key : String) : Option V :=
  m.warmBackend.bind (fun b => b key)

def coldCopy (m : TieredMemoryManager V) (key : String) : Option V :=
  m.coldBackend.bind (fun b => b key)

section perform

variable {c : Parts} {m : TieredMemoryManager V} {key : String} {q : Ask V}

theorem found_fits (h : Fits m.policy) (segment : Dict String V) (j : String) (promote : Bool) :
    Fits (found m segment j promote).1.policy ∧
      ∀ k, get? (found m segment j promote).1.policy k = get? m.policy k := by
  unfold found
  split
  · split
    · have haccess := accessed h j
      exact ⟨haccess.fits, haccess.same⟩
    · exact ⟨h, fun _ => rfl⟩
  · exact ⟨h, fun _ => rfl⟩

theorem fits_perform (h : Fits m.policy) (q : Ask V) : Fits (perform m q).1.policy := by
  cases q with
  | lookHot j promote => exact (found_fits h m.policy.hot j promote).1
  | lookWarm j promote => exact (found_fits h m.policy.warm j promote).1
  | insert j v => exact (inserted h j v).fits
  | takeUp j v => exact (accessed (inserted h j v).fits j).fits
  | remove j => exact fits_remove h j
  | _ => exact h

/-- The questions that put a value of the key into the policy. -/
def Enters (key : String) (v : V) (q : Ask V) : Prop := q = .insert key v ∨ q = .takeUp key v

theorem inserted_value (h : Fits m.policy) {j : String} {w v : V}
    (hv : get? (m.policy.insert j w).1 key = some v) :
    (key = j ∧ v = w) ∨ (key ≠ j ∧ get? m.policy key = some v) :=
  (inserted h j w).some_of key v hv

/-- A value in the policy has just entered it, or it was there before and nothing
was put in its place. -/
theorem policy_perform (h : Fits m.policy) {v : V}
    (hv : get? (perform m q).1.policy key = some v) :
    Enters key v q ∨ (get? m.policy key = some v ∧ ∀ w, q ≠ .insert key w) := by
  cases q with
  | lookHot j promote =>
    have hsame := (found_fits h m.policy.hot j promote).2 key
    exact Or.inr ⟨hsame.symm.trans hv, fun w hw => nomatch hw⟩
  | lookWarm j promote =>
    have hsame := (found_fits h m.policy.warm j promote).2 key
    exact Or.inr ⟨hsame.symm.trans hv, fun w hw => nomatch hw⟩
  | insert j w =>
    rcases inserted_value h hv with ⟨rfl, rfl⟩ | ⟨hne, hold⟩
    · exact Or.inl (Or.inl rfl)
    · refine Or.inr ⟨hold, fun w' hw => ?_⟩
      cases hw
      exact hne rfl
  | takeUp j w =>
    have hsame := (accessed (inserted h j w).fits j).same key
    rcases inserted_value h (hsame.symm.trans hv) with ⟨rfl, rfl⟩ | ⟨-, hold⟩
    · exact Or.inl (Or.inr rfl)
    · exact Or.inr ⟨hold, fun w' hw => nomatch hw⟩
  | remove j =>
    have hremove : get? (m.policy.remove j) key = some v := hv
    rw [get?_remove] at hremove
    by_cases hj : j = key
    · rw [if_pos hj] at hremove
      cases hremove
    · rw [if_neg hj] at hremove
      exact Or.inr ⟨hremove, fun w hw => nomatch hw⟩
  | _ => exact Or.inr ⟨hv, fun w hw => nomatch hw⟩

/-- What the warm backend has of a key after a step. -/
theorem warmCopy_perform (key : String) (q : Ask V) (hm : m.warmBackend.isSome) :
    warmCopy (perform m q).1 key = warmCopy m key ∨
      (∃ v, q = .warmSet key v ∧ warmCopy (perform m q).1 key = some v) ∨
      (q = .warmDelete key ∧ warmCopy (perform m q).1 key = none) := by
  obtain ⟨b, hb⟩ := Option.isSome_iff_exists.mp hm
  cases q with
  | lookHot j promote | lookWarm j promote =>
    left
    simp only [perform, found]
    split
    · split <;> rfl
    · rfl
  | warmSet j v =>
    by_cases hj : key = j
    · subst hj
      right
      left
      exact ⟨v, rfl, by simp [perform, warmCopy, TieredMemoryManager.setWarm, hb, Backend.put]⟩
    · left
      simp [perform, warmCopy, TieredMemoryManager.setWarm, hb, Backend.put, hj]
  | warmDelete j =>
    by_cases hj : key = j
    · subst hj
      right
      right
      exact ⟨rfl, by simp [perform, warmCopy, hb, Backend.delete]⟩
    · left
      simp [perform, warmCopy, hb, Backend.delete, hj]
  | _ => exact Or.inl rfl

/-- What the cold backend has of a key after a step. -/
theorem coldCopy_perform (key : String) (q : Ask V) (hm : m.coldBackend.isSome) :
    coldCopy (perform m q).1 key = coldCopy m key ∨
      ∃ v, q = .coldStore key v ∧ coldCopy (perform m q).1 key = some v := by
  obtain ⟨b, hb⟩ := Option.isSome_iff_exists.mp hm
  cases q with
  | lookHot j promote | lookWarm j promote =>
    left
    simp only [perform, found]
    split
    · split <;> rfl
    · rfl
  | coldStore j v =>
    by_cases hj : key = j
    · subst hj
      right
      exact ⟨v, rfl, by simp [perform, coldCopy, hb, Backend.put]⟩
    · left
      simp [perform, coldCopy, hb, Backend.put, hj]
  | _ => exact Or.inl rfl

/-- What a look finds is in the policy. -/
theorem found_value {segment : Dict String V} {j : String} {promote : Bool} {v : V}
    (hv : (found m segment j promote).2.1 = some v) : segment.get? j = some v := by
  unfold found at hv
  split at hv
  · rename_i w hw
    rw [hw]
    split at hv <;> exact hv
  · cases hv

theorem lookHot_value {j : String} {promote : Bool} {v : V}
    (hv : (perform m (.lookHot j promote)).2.1 = some v) : get? m.policy j = some v := by
  have hhot : m.policy.hot.get? j = some v := found_value hv
  unfold get?
  rw [hhot]

theorem lookWarm_value (h : Fits m.policy) {j : String} {promote : Bool} {v : V}
    (hv : (perform m (.lookWarm j promote)).2.1 = some v) : get? m.policy j = some v :=
  get?_of_warm h (found_value hv)

/-- A look without promotion changes nothing. -/
theorem found_false (m : TieredMemoryManager V) (segment : Dict String V) (j : String) :
    found m segment j false = (m, segment.get? j, []) := by
  unfold found
  rcases segment.get? j with _ | v <;> rfl

theorem quiet_perform (m : TieredMemoryManager V) (q : Ask V) : Quiet ⟨q, (perform m q).2⟩ := by
  have hfound (segment : Dict String V) (j : String) : (found m segment j false).2.2 = [] := by
    rw [found_false]
  cases q with
  | lookHot j promote =>
    cases promote with
    | true => trivial
    | false => exact hfound m.policy.hot j
  | lookWarm j promote =>
    cases promote with
    | true => trivial
    | false => exact hfound m.policy.warm j
  | _ => trivial

end perform

/-! ## What a run keeps -/

/-- All that a task has in hand of the key is the value. What it is to remove is in
the cold backend. -/
structure InHand (key : String) (value : V) (m : TieredMemoryManager V) (h : Hand V) : Prop where
  read : ∀ v, h.grip = .read v ∨ h.grip = .readCold v ∨ h.grip = .moved v → v = value
  moved : ∀ v, h.grip = .moved v → coldCopy m key = some value
  owes : ∀ v, h.owes = some v → v = value

/-- The value has entered the policy. -/
def Stored (key : String) (P : Tasks V) : Prop := ∃ task ∈ P.tasks, (handOf key task).entered = true

/-- It has been set in the warm backend too. -/
def Settled (key : String) (P : Tasks V) : Prop :=
  ∃ task ∈ P.tasks, (handOf key task).entered = true ∧ (handOf key task).owes = none

/-- When the key is stored, no task under way has another value of it in hand. After
that no task that writes finds another one in a backend. -/
def Allowed (key : String) (value : V) (P : Tasks V) :
    Move Empty (MemoryCall V) (Ask V) Answer → Prop
  | .answer _ ⟨.insert j _, _⟩ =>
    j = key → ∀ task ∈ P.tasks, task.code.ended = false →
      InHand key value P.shared (handOf key task)
  | .answer i ⟨.warmGet j, some v⟩ | .answer i ⟨.coldRetrieve j, some v⟩ =>
    j = key → Stored key P →
      ∀ task, P.tasks[i]? = some task → onlyLooks task.job = false → v = value
  | _ => True

/-- What holds of a pool whose moves are allowed. -/
structure Steady (key : String) (value : V) (P : Tasks V) : Prop where
  warm : P.shared.warmBackend.isSome
  cold : P.shared.coldBackend.isSome
  fits : Fits P.shared.policy
  jobs : ∀ task ∈ P.tasks, ∀ v, task.job = .store key v → v = value
  policy : Stored key P → ∀ v, get? P.shared.policy key = some v → v = value
  hands : Stored key P → ∀ task ∈ P.tasks, task.code.ended = false →
    InHand key value P.shared (handOf key task)
  settled : Settled key P → (∀ v, warmCopy P.shared key = some v → v = value) ∧
    (warmCopy P.shared key = some value ∨ coldCopy P.shared key = some value)

section hands

variable {key : String} {value : V} {called : MemoryCall V} {m : TieredMemoryManager V} {h : Hand V}

/-- What becomes of the debt: storing the key makes one, setting the warm backend
pays it, and a promotion from the cold backend may make one. -/
theorem note_cases (key : String) (called : MemoryCall V) (h : Hand V)
    (e : Answered (Ask V) Answer) :
    ((note key called h e).entered = h.entered ∧ (note key called h e).owes = h.owes) ∨
      (∃ v, e.1 = .insert key v ∧ note key called h e = ⟨h.grip, some v, true⟩) ∨
      (∃ v, e.1 = .warmSet key v ∧ note key called h e = ⟨h.grip, none, h.entered⟩) ∨
      ((note key called h e).entered = h.entered ∧ ∃ v, (note key called h e).owes = some v) := by
  unfold note
  split
  · rename_i hboth
    obtain ⟨q, a⟩ := e
    cases q with
    | insert j v =>
      obtain rfl : j = key := Option.some.inj hboth.2
      exact Or.inr (Or.inl ⟨v, rfl, rfl⟩)
    | warmSet j v =>
      obtain rfl : j = key := Option.some.inj hboth.2
      exact Or.inr (Or.inr (Or.inl ⟨v, rfl, rfl⟩))
    | takeUp j v =>
      simp only [noteKey]
      split
      · exact Or.inr (Or.inr (Or.inr ⟨rfl, _, rfl⟩))
      · exact Or.inl ⟨rfl, rfl⟩
    | lookHot j promote | lookWarm j promote =>
      left
      obtain ⟨_ | v, evictions⟩ := a <;> exact ⟨rfl, rfl⟩
    | warmGet j | coldRetrieve j =>
      left
      rcases a with _ | v <;> exact ⟨rfl, rfl⟩
    | _ => exact Or.inl ⟨rfl, rfl⟩
  · exact Or.inl ⟨rfl, rfl⟩

theorem note_entered {e : Answered (Ask V) Answer} (hnote : (note key called h e).entered = true) :
    h.entered = true ∨ ∃ v, e.1 = .insert key v := by
  rcases note_cases key called h e with ⟨hsame, -⟩ | ⟨v, he, -⟩ | ⟨v, -, hall⟩ | ⟨hsame, -⟩
  · exact Or.inl (hsame.symm.trans hnote)
  · exact Or.inr ⟨v, he⟩
  · rw [hall] at hnote
    exact Or.inl hnote
  · exact Or.inl (hsame.symm.trans hnote)

theorem note_settled {e : Answered (Ask V) Answer} (hentered : (note key called h e).entered = true)
    (howes : (note key called h e).owes = none) :
    h.entered = true ∧ (h.owes = none ∨ ∃ v, e.1 = .warmSet key v) := by
  rcases note_cases key called h e with ⟨hsame, hsame'⟩ | ⟨v, -, hall⟩ | ⟨v, he, hall⟩ | ⟨-, v, hv⟩
  · exact ⟨hsame.symm.trans hentered, Or.inl (hsame'.symm.trans howes)⟩
  · rw [hall] at howes
    cases howes
  · rw [hall] at hentered
    exact ⟨hentered, Or.inr ⟨v, he⟩⟩
  · rw [hv] at howes
    cases howes

/-- The value that an answer brings. -/
def valueRead : Answered (Ask V) Answer → Option V
  | ⟨.lookHot _ _, a⟩ | ⟨.lookWarm _ _, a⟩ => a.1
  | ⟨.warmGet _, a⟩ | ⟨.coldRetrieve _, a⟩ => a
  | _ => none

/-- What is in hand is all that a task writes. -/
theorem value_written (h' : InHand key value m h) {q : Ask V} (hmay : may key called h q) {v : V}
    (hq : q = .takeUp key v ∨ q = .coldStore key v ∨ q = .warmSet key v) : v = value := by
  rcases hq with rfl | rfl | rfl
  · have hgrip : h.grip = .read v ∨ h.grip = .readCold v := hmay.1 rfl
    exact h'.read v (hgrip.imp_right Or.inl)
  · have hgrip : h.grip = .read v ∨ h.grip = .readCold v := hmay.1 rfl
    exact h'.read v (hgrip.imp_right Or.inl)
  · exact h'.owes v (hmay.1 rfl)

/-- The value stays in the cold backend. -/
theorem cold_kept (hm : m.coldBackend.isSome) (h' : InHand key value m h) {q : Ask V}
    (hmay : may key called h q) (hcold : coldCopy m key = some value) :
    coldCopy (perform m q).1 key = some value := by
  rcases coldCopy_perform key q hm with hsame | ⟨v, hq, hv⟩
  · rw [hsame, hcold]
  · rw [hv, value_written h' hmay (Or.inr (Or.inl hq))]

/-- What another task has in hand stays the value. -/
theorem InHand.frame {other : Hand V} (hother : InHand key value m other)
    (hm : m.coldBackend.isSome) (h' : InHand key value m h) {q : Ask V}
    (hmay : may key called h q) : InHand key value (perform m q).1 other where
  read := hother.read
  moved v hv := cold_kept hm h' hmay (hother.moved v hv)
  owes := hother.owes

/-- A hand that only owes the value, or nothing at all. -/
theorem inHand_nothing {owes : Option V} (howes : ∀ v, owes = some v → v = value)
    (entered : Bool) : InHand key value m ⟨.nothing, owes, entered⟩ where
  read v hv := by
    rcases hv with hv | hv | hv <;> cases hv
  moved v hv := nomatch hv
  owes := howes

theorem InHand.reads {other : Hand V} (hother : InHand key value m other) {v : V} {grip : Grip V}
    (hgrip : grip = .read v ∨ grip = .readCold v) (hv : v = value) :
    InHand key value m { other with grip := grip } where
  read w hw := by
    rcases hgrip with rfl | rfl <;> rcases hw with hw | hw | hw <;> cases hw <;> exact hv
  moved w hw := by
    rcases hgrip with rfl | rfl <;> cases hw
  owes := hother.owes

theorem inHand_afterLook (h' : InHand key value m h) (promote : Bool) {found : Option V}
    (hreads : ∀ v, found = some v → v = value) :
    InHand key value m (afterLook h promote found) := by
  rcases found with _ | v
  · exact inHand_nothing h'.owes _
  · cases promote with
    | true => exact inHand_nothing h'.owes _
    | false => exact h'.reads (Or.inl rfl) (hreads v rfl)

/-- A task that reads nothing but the value and stores nothing else has nothing else
in hand after the answer. -/
theorem InHand.note (h' : InHand key value m h) (hm : m.coldBackend.isSome) {q : Ask V}
    (hmay : may key called h q) (hstores : ∀ v, called = .store key v → v = value)
    (hreads : keyOf q = some key → onlyLooks called = false →
      ∀ v, valueRead ⟨q, (perform m q).2⟩ = some v → v = value) :
    InHand key value (perform m q).1 (note key called h ⟨q, (perform m q).2⟩) := by
  have hframe : InHand key value (perform m q).1 h := h'.frame hm h' hmay
  by_cases hboth : onlyLooks called = false ∧ keyOf q = some key
  · rw [note_key hboth.1 hboth.2]
    have hread := hreads hboth.2 hboth.1
    generalize hanswer : (perform m q).2 = a at hread
    cases q with
    | lookHot j promote | lookWarm j promote => exact inHand_afterLook hframe promote hread
    | warmGet j =>
      rcases a with _ | v
      · exact hframe
      · exact hframe.reads (Or.inl rfl) (hread v rfl)
    | coldRetrieve j =>
      rcases a with _ | v
      · exact hframe
      · exact hframe.reads (Or.inr rfl) (hread v rfl)
    | insert j v =>
      obtain rfl : j = key := Option.some.inj hboth.2
      refine ⟨hframe.read, hframe.moved, fun w hw => ?_⟩
      cases hw
      exact hstores v (hmay.2 v rfl)
    | takeUp j v =>
      simp only [noteKey]
      split
      · rename_i w hgrip
        refine inHand_nothing (fun w' hw' => ?_) _
        cases hw'
        exact hframe.read w (Or.inr (Or.inl hgrip))
      · exact inHand_nothing hframe.owes _
    | warmSet j v => exact ⟨hframe.read, hframe.moved, fun w hw => nomatch hw⟩
    | coldStore j v =>
      obtain rfl : j = key := Option.some.inj hboth.2
      have hv : v = value := value_written h' hmay (Or.inr (Or.inl rfl))
      refine ⟨fun w hw => ?_, fun w _ => ?_, hframe.owes⟩
      · rcases hw with hw | hw | hw <;> cases hw
        exact hv
      · obtain ⟨b, hb⟩ := Option.isSome_iff_exists.mp hm
        simp [perform, coldCopy, hb, Backend.put, hv]
    | warmDelete j => exact inHand_nothing hframe.owes _
    | _ => exact hframe
  · unfold demotions.note
    rw [if_neg hboth]
    exact hframe

end hands

/-- What is known of an answer that a task gets. -/
structure Acts (key : String) (P P' : Tasks V)
    (task : Task (MemoryCall V) (Ask V) Answer Empty (Option V)) (q : Ask V) : Prop where
  there : task ∈ P.tasks
  underWay : task.code.ended = false
  may : may key task.job (handOf key task) q
  shared : P'.shared = (perform P.shared q).1
  came : ∀ task' ∈ P'.tasks, task' ∈ P.tasks ∨ (task'.job = task.job ∧
    handOf key task' = note key task.job (handOf key task) ⟨q, (perform P.shared q).2⟩)

section steps

variable {key : String} {value : V} {P P' : Tasks V} {q : Ask V}
  {task : Task (MemoryCall V) (Ask V) Answer Empty (Option V)}

theorem Settled.stored (h : Settled key P) : Stored key P := by
  obtain ⟨task, htask, hentered, -⟩ := h
  exact ⟨task, htask, hentered⟩

/-- The key was stored before, or it is this answer that stores it. -/
theorem Acts.stored (h : Acts key P P' task q) (hstored : Stored key P') :
    Stored key P ∨ ∃ v, q = .insert key v := by
  obtain ⟨task', htask', hentered⟩ := hstored
  rcases h.came task' htask' with hold | ⟨-, hhand⟩
  · exact Or.inl ⟨task', hold, hentered⟩
  · rw [hhand] at hentered
    rcases note_entered hentered with hbefore | hinsert
    · exact Or.inl ⟨task, h.there, hbefore⟩
    · exact Or.inr hinsert

theorem Acts.settled (h : Acts key P P' task q) (hsettled : Settled key P') :
    Settled key P ∨ (Stored key P ∧ ∃ v, q = .warmSet key v) := by
  obtain ⟨task', htask', hentered, howes⟩ := hsettled
  rcases h.came task' htask' with hold | ⟨-, hhand⟩
  · exact Or.inl ⟨task', hold, hentered, howes⟩
  · rw [hhand] at hentered howes
    obtain ⟨hbefore, hnone | hset⟩ := note_settled hentered howes
    · exact Or.inl ⟨task, h.there, hbefore, hnone⟩
    · exact Or.inr ⟨⟨task, h.there, hbefore⟩, hset⟩

/-- What an allowed answer relies on. -/
structure Goes (key : String) (value : V) (P : Tasks V)
    (task : Task (MemoryCall V) (Ask V) Answer Empty (Option V)) (q : Ask V) : Prop where
  inserts : ∀ v, q = .insert key v → ∀ task ∈ P.tasks, task.code.ended = false →
    InHand key value P.shared (handOf key task)
  reads : Stored key P → keyOf q = some key → onlyLooks task.job = false →
    ∀ v, valueRead ⟨q, (perform P.shared q).2⟩ = some v → v = value

variable (h : Steady key value P) (hacts : Acts key P P' task q) (hgoes : Goes key value P task q)

include h hacts hgoes

theorem Steady.handsBefore (hstored : Stored key P') :
    ∀ task ∈ P.tasks, task.code.ended = false → InHand key value P.shared (handOf key task) := by
  rcases hacts.stored hstored with hbefore | ⟨v, hinsert⟩
  · exact h.hands hbefore
  · exact hgoes.inserts v hinsert

theorem Steady.policyAfter (hstored : Stored key P') (v : V)
    (hv : get? P'.shared.policy key = some v) : v = value := by
  have hhand := h.handsBefore hacts hgoes hstored task hacts.there hacts.underWay
  rw [hacts.shared] at hv
  rcases policy_perform h.fits hv with henters | ⟨hbefore, hnot⟩
  · rcases henters with hinsert | htakeUp
    · exact h.jobs task hacts.there v (hacts.may.2 v hinsert)
    · exact value_written hhand hacts.may (Or.inl htakeUp)
  · rcases hacts.stored hstored with hearlier | ⟨w, hinsert⟩
    · exact h.policy hearlier v hbefore
    · exact absurd hinsert (hnot w)

theorem Steady.handsAfter (hstored : Stored key P') :
    ∀ task' ∈ P'.tasks, task'.code.ended = false →
      InHand key value P'.shared (handOf key task') := by
  have hbefore := h.handsBefore hacts hgoes hstored
  have hhand := hbefore task hacts.there hacts.underWay
  intro task' htask' hunderWay
  rw [hacts.shared]
  rcases hacts.came task' htask' with hold | ⟨-, hnew⟩
  · exact (hbefore task' hold hunderWay).frame h.cold hhand hacts.may
  · rw [hnew]
    refine hhand.note h.cold hacts.may (h.jobs task hacts.there) (fun hkey hcalled v hv => ?_)
    rcases hacts.stored hstored with hearlier | ⟨w, hinsert⟩
    · exact hgoes.reads hearlier hkey hcalled v hv
    · subst hinsert
      cases hv

theorem Steady.settledAfter (hsettled : Settled key P') :
    (∀ v, warmCopy P'.shared key = some v → v = value) ∧
      (warmCopy P'.shared key = some value ∨ coldCopy P'.shared key = some value) := by
  have hhand := h.handsBefore hacts hgoes hsettled.stored task hacts.there hacts.underWay
  rw [hacts.shared]
  rcases hacts.settled hsettled with hearlier | ⟨hearlier, w, rfl⟩
  · obtain ⟨hwarm, hcopies⟩ := h.settled hearlier
    rcases warmCopy_perform key q h.warm with hsame | ⟨w, hq, hw⟩ | ⟨hq, hnone⟩
    · rw [hsame]
      exact ⟨hwarm, hcopies.imp_right (cold_kept h.cold hhand hacts.may)⟩
    · have hvalue : w = value := value_written hhand hacts.may (Or.inr (Or.inr hq))
      rw [hw, hvalue]
      exact ⟨fun v hv => (Option.some.inj hv).symm, Or.inl rfl⟩
    · rw [hnone]
      obtain ⟨w, hmoved⟩ : ∃ w, (handOf key task).grip = .moved w := by
        have hmay := hacts.may
        subst hq
        exact hmay.1 rfl
      have hcold := cold_kept h.cold hhand hacts.may (hhand.moved w hmoved)
      exact ⟨fun v hv => (nomatch hv), Or.inr hcold⟩
  · have hvalue : w = value := value_written hhand hacts.may (Or.inr (Or.inr rfl))
    obtain ⟨b, hb⟩ := Option.isSome_iff_exists.mp h.warm
    have hset : warmCopy (perform P.shared (.warmSet key w)).1 key = some value := by
      simp [perform, warmCopy, TieredMemoryManager.setWarm, hb, Backend.put, hvalue]
    rw [hset]
    exact ⟨fun v hv => (Option.some.inj hv).symm, Or.inl rfl⟩

/-- An allowed answer keeps all of it. -/
theorem Steady.answered (dedup : Bool) : Steady key value P' := by
  have hhas : Has ⟨true, true, dedup⟩ (perform P.shared q).1 :=
    Has.perform ⟨h.warm.symm, h.cold.symm⟩ q
  refine ⟨?_, ?_, ?_, ?_, h.policyAfter hacts hgoes, h.handsAfter hacts hgoes,
    h.settledAfter hacts hgoes⟩
  · rw [hacts.shared]
    exact hhas.warm.symm
  · rw [hacts.shared]
    exact hhas.cold.symm
  · rw [hacts.shared]
    exact fits_perform h.fits q
  · intro task' htask'
    rcases hacts.came task' htask' with hold | ⟨hjob, -⟩
    · exact h.jobs task' hold
    · rw [hjob]
      exact h.jobs task hacts.there

end steps

/-! ## Runs -/

section runs

variable {dedup : Bool} {key : String} {value : V} {P P' : Tasks V}
  {move : Move Empty (MemoryCall V) (Ask V) Answer}

/-- Every task goes by its hand. -/
def Handled (key : String) (P : Tasks V) : Prop :=
  P.Kept (handling key) (fun _ => emptyHand) (Done key)

theorem Handled.step (h : Handled key P)
    (hstep : (tasks dedup key value).machine.step P move P') : Handled key P' := by
  refine Pool.Kept.step (fun job _ _ => keeps_code dedup job) h hstep ?_
  cases move with
  | start job => trivial
  | turn t => exact nomatch t
  | answer i e =>
    intro task next _ _
    have hserves : perform P.shared e.1 = (P'.shared, e.2) := hstep.2
    have hquiet := quiet_perform P.shared e.1
    rw [hserves] at hquiet
    exact hquiet

theorem stored_started {job : MemoryCall V} {code : Code V (Option V)}
    (h : Stored key ⟨P.shared, P.tasks ++ [⟨job, [], code⟩]⟩) : Stored key P := by
  obtain ⟨task, htask, hentered⟩ := h
  rcases List.mem_append.mp htask with hold | hnew
  · exact ⟨task, hold, hentered⟩
  · rw [List.mem_singleton.mp hnew] at hentered
    cases hentered

/-- A task that starts has nothing in hand. -/
theorem Steady.started (h : Steady key value P) {job : MemoryCall V}
    (hopen : ∀ v, job = .store key v → v = value) (code : Code V (Option V)) :
    Steady key value ⟨P.shared, P.tasks ++ [⟨job, [], code⟩]⟩ where
  warm := h.warm
  cold := h.cold
  fits := h.fits
  jobs task htask := by
    rcases List.mem_append.mp htask with hold | hnew
    · exact h.jobs task hold
    · rw [List.mem_singleton.mp hnew]
      exact hopen
  policy hstored := h.policy (stored_started hstored)
  hands hstored task htask hunderWay := by
    rcases List.mem_append.mp htask with hold | hnew
    · exact h.hands (stored_started hstored) task hold hunderWay
    · rw [List.mem_singleton.mp hnew]
      have hempty : InHand key value P.shared emptyHand := by
        refine inHand_nothing (fun v hv => ?_) false
        cases hv
      exact hempty
  settled hsettled := by
    obtain ⟨task, htask, hentered, howes⟩ := hsettled
    rcases List.mem_append.mp htask with hold | hnew
    · exact h.settled ⟨task, hold, hentered, howes⟩
    · rw [List.mem_singleton.mp hnew] at hentered
      cases hentered

/-- The task that a move answers, and what is known of the answer. -/
theorem acts_of_step (hhandled : Handled key P) {i : Nat} {e : Answered (Ask V) Answer}
    (hstep : (tasks dedup key value).machine.step P (.answer i e) P') :
    ∃ task, P.tasks[i]? = some task ∧ e.2 = (perform P.shared e.1).2 ∧
      Acts key P P' task e.1 := by
  obtain ⟨hanswer, hserves⟩ := id hstep
  have hshared : perform P.shared e.1 = (P'.shared, e.2) := hserves
  have hsame : (perform P.shared e.1).2 = e.2 := congrArg Prod.snd hshared
  generalize htasks : P'.tasks = tasks' at hanswer
  obtain ⟨hthere, hasks⟩ := hanswer
  rename_i task next
  have hmem := List.mem_of_getElem? hthere
  have hkept := hhandled task hmem
  rw [hasks] at hkept
  refine ⟨task, hthere, hsame.symm, hmem, ?_, hkept.1, (congrArg Prod.fst hshared).symm, ?_⟩
  · rw [hasks]
    rfl
  · intro task' htask'
    rw [htasks] at htask'
    rcases List.mem_or_eq_of_mem_set htask' with hold | rfl
    · exact Or.inl hold
    · right
      rw [hsame]
      exact ⟨rfl, by simp [handOf]⟩

/-- What the condition says of the task that is answered. -/
theorem goes_of_allowed (h : Steady key value P) {i : Nat} {e : Answered (Ask V) Answer}
    (hallowed : Allowed key value P (.answer i e))
    {task : Task (MemoryCall V) (Ask V) Answer Empty (Option V)} (hthere : P.tasks[i]? = some task)
    (hsame : e.2 = (perform P.shared e.1).2) : Goes key value P task e.1 := by
  obtain ⟨q, a⟩ := e
  refine ⟨fun v hq => ?_, fun hstored hkey hcalled v hv => ?_⟩
  · subst hq
    exact hallowed rfl
  · simp only at hsame hkey hv
    cases q with
    | lookHot j promote =>
      obtain rfl : j = key := Option.some.inj hkey
      exact h.policy hstored v (lookHot_value hv)
    | lookWarm j promote =>
      obtain rfl : j = key := Option.some.inj hkey
      exact h.policy hstored v (lookWarm_value h.fits hv)
    | warmGet j | coldRetrieve j =>
      obtain rfl : j = key := Option.some.inj hkey
      rw [← hsame] at hv
      have hread : a = some v := hv
      subst hread
      exact hallowed rfl hstored task hthere hcalled
    | _ => cases hv

theorem Steady.step (h : Steady key value P) (hhandled : Handled key P)
    (hstep : (tasks dedup key value).machine.step P move P')
    (hallowed : Allowed key value P move) : Steady key value P' := by
  cases move with
  | start job =>
    obtain ⟨hopen, rfl⟩ := hstep
    exact h.started hopen _
  | turn t => exact nomatch t
  | answer i e =>
    obtain ⟨task, hthere, hsame, hacts⟩ := acts_of_step hhandled hstep
    exact h.answered hacts (goes_of_allowed h hallowed hthere hsame) dedup

theorem steady_reachable
    (h : Reachable ((tasks dedup key value).machine.restrict (Allowed key value)) P) :
    Steady key value P ∧ Handled key P := by
  refine h.invariant (I := fun P' => Steady key value P' ∧ Handled key P') (fun P0 hinit => ?_)
    (fun P1 move P2 hboth hstep => ?_)
  · obtain ⟨⟨hhas, hfits⟩, hnone⟩ := hinit
    have hempty {p : Task (MemoryCall V) (Ask V) Answer Empty (Option V) → Prop}
        (hex : ∃ task ∈ P0.tasks, p task) : False := by
      obtain ⟨task, htask, -⟩ := hex
      rw [hnone] at htask
      cases htask
    refine ⟨⟨hhas.warm.symm, hhas.cold.symm, hfits, ?_, ?_, ?_, ?_⟩, Pool.kept_init hnone⟩
    · intro task htask
      exact (hempty (p := fun _ => True) ⟨task, htask, trivial⟩).elim
    · exact fun hstored => (hempty hstored).elim
    · exact fun hstored => (hempty hstored).elim
    · exact fun hsettled => (hempty hsettled).elim
  · exact ⟨hboth.1.step hboth.2 hstep.1 hstep.2, hboth.2.step hstep.1⟩

/-- In every interleaving in which no task has another value of the key in hand when
it is stored, and none finds one in a backend after that, the stored value is what a
retrieve finds in the end. -/
theorem no_update_is_lost
    (h : Reachable ((tasks dedup key value).machine.restrict (Allowed key value)) P) :
    NoUpdateLost key value P := by
  obtain ⟨hsteady, hhandled⟩ := steady_reachable h
  intro ⟨task, htask, hjob⟩ hended promote
  have hkept := hhandled task htask
  obtain ⟨r, hr⟩ : ∃ r, task.code = .done r := by
    have hend := hended task htask
    rcases hcode : task.code with r | q
    · exact ⟨r, rfl⟩
    · rw [hcode] at hend
      cases hend
  rw [hr] at hkept
  obtain ⟨hentered, howes⟩ := hkept value hjob
  obtain ⟨hwarm, hcopies⟩ := hsteady.settled ⟨task, htask, hentered, howes⟩
  rw [TieredMemoryManager.retrieve_value, look_eq]
  rcases hpolicy : get? P.shared.policy key with _ | v
  · unfold TieredMemoryManager.below
    unfold warmCopy coldCopy at hcopies
    unfold warmCopy at hwarm
    rcases hfound : P.shared.warmBackend.bind (fun b => b key) with _ | v
    · rw [hfound] at hcopies
      simpa using hcopies
    · rw [hwarm v hfound]
  · rw [hsteady.policy ⟨task, htask, hentered⟩ v hpolicy]

end runs

/-! ## A store and a demotion -/

/-- A memory that has stored an older value. -/
def aged : TieredMemoryManager String := (create true true 1 1).store "k" "old"

theorem aged_init (key value : String) : (tasks false key value).init aged := by
  have hcreated := holds_create (V := String) true true 1 1
  exact ⟨⟨rfl, rfl⟩, (holds_store hcreated (Or.inl rfl)).fits⟩

/-- A store of a new value and a demotion, both at their start. -/
def contending : Tasks String :=
  ⟨aged, [⟨.store "k" "new", [], code ⟨true, true, false⟩ (.store "k" "new")⟩,
    ⟨.demote "k" .cold, [], code ⟨true, true, false⟩ (.demote "k" .cold)⟩]⟩

/-- The task in place `i` goes on. -/
def goOn (P : Tasks String) (i : Nat) : Tasks String :=
  P.play (fun m e => (perform m e.1).1) (fun m q => (perform m q).2) i

def inOrder (order : List Nat) : Tasks String := order.foldl goOn contending

theorem reachable_contending
    {allowed : Tasks String → Move Empty (MemoryCall String) (Ask String) Answer → Prop}
    (hallowed : ∀ P job, allowed P (.start job)) :
    Reachable ((tasks false "k" "new").machine.restrict allowed) contending := by
  have hnone : Reachable ((tasks false "k" "new").machine.restrict allowed) ⟨aged, []⟩ :=
    reachable_init ⟨aged_init "k" "new", rfl⟩
  have hstore : (tasks false "k" "new").opens aged (.store "k" "new") := by
    intro v hv
    cases hv
    rfl
  have hdemote : (tasks false "k" "new").opens aged (.demote "k" .cold) := fun v hv => nomatch hv
  have hone : Reachable ((tasks false "k" "new").machine.restrict allowed)
      ⟨aged, [⟨.store "k" "new", [], code ⟨true, true, false⟩ (.store "k" "new")⟩]⟩ := by
    refine hnone.step (a := .start (.store "k" "new")) ?_
    exact ⟨⟨hstore, rfl⟩, hallowed _ _⟩
  refine hone.step (a := .start (.demote "k" .cold)) ?_
  exact ⟨⟨hdemote, rfl⟩, hallowed _ _⟩

/-- The question that the task in place `i` is at. -/
def asked (P : Tasks String) (i : Nat) : Option (Ask String) :=
  match P.tasks[i]? with
  | some ⟨_, _, .ask q _⟩ => some q
  | _ => none

theorem reachable_goOn
    {allowed : Tasks String → Move Empty (MemoryCall String) (Ask String) Answer → Prop}
    {P : Tasks String} (h : Reachable ((tasks false "k" "new").machine.restrict allowed) P)
    {i : Nat}
    (hallowed : ∀ q, asked P i = some q → allowed P (.answer i ⟨q, (perform P.shared q).2⟩)) :
    Reachable ((tasks false "k" "new").machine.restrict allowed) (goOn P i) := by
  unfold goOn Pool.play
  split
  · rename_i job trace q next hthere
    have hasked : asked P i = some q := by
      unfold asked
      rw [hthere]
    refine h.step (a := .answer i ⟨q, (perform P.shared q).2⟩) ⟨⟨?_, rfl⟩, hallowed q hasked⟩
    exact Pool.Answers.intro hthere rfl
  · exact h

/-- Questions that the condition leaves alone. -/
def free : Ask V → Bool
  | .insert _ _ | .warmGet _ | .coldRetrieve _ => false
  | _ => true

theorem allowed_of_free {key value : String} {P : Tasks String} {i : Nat}
    (h : (asked P i).all free = true) (q : Ask String) (hq : asked P i = some q) :
    Allowed key value P (.answer i ⟨q, (perform P.shared q).2⟩) := by
  rw [hq] at h
  cases q with
  | insert j v | warmGet j | coldRetrieve j => cases h
  | _ => trivial

/-- The store runs, and then the demotion. -/
theorem a_stored_value_is_demoted :
    ((inOrder [0, 0, 1, 1, 1, 1, 1]).shared.retrieve "k" true).2 = some "new" := by
  have hstart : Reachable ((tasks false "k" "new").machine.restrict (Allowed "k" "new"))
      contending := reachable_contending (fun _ _ => trivial)
  have hinserted := reachable_goOn (i := 0) hstart (fun q hq => by
    cases hq
    intro _ task htask _
    have hempty : handOf "k" task = emptyHand := by
      rcases List.mem_cons.mp htask with rfl | htask
      · rfl
      · rw [List.mem_singleton.mp htask]
        rfl
    rw [hempty]
    refine inHand_nothing (fun v hv => ?_) false
    cases hv)
  have hset := reachable_goOn (i := 0) hinserted (allowed_of_free (by decide +kernel))
  have hhot := reachable_goOn (i := 1) hset (allowed_of_free (by decide +kernel))
  have hwarm := reachable_goOn (i := 1) hhot (allowed_of_free (by decide +kernel))
  have hmoved := reachable_goOn (i := 1) hwarm (allowed_of_free (by decide +kernel))
  have hremoved := reachable_goOn (i := 1) hmoved (allowed_of_free (by decide +kernel))
  have hdeleted := reachable_goOn (i := 1) hremoved (allowed_of_free (by decide +kernel))
  have hstored : ∃ task ∈ (inOrder [0, 0, 1, 1, 1, 1, 1]).tasks, task.job = .store "k" "new" :=
    ⟨_, List.mem_of_getElem? (i := 0) rfl, rfl⟩
  exact no_update_is_lost hdeleted hstored (by decide +kernel) true

/-- The demotion reads the old value and writes it to the cold backend. Then the store
runs, and the demotion removes what it has stored. -/
theorem an_update_is_lost :
    ¬ ∀ P, Reachable (tasks false "k" "new").machine P → NoUpdateLost "k" "new" P := by
  intro hall
  have hgoesOn (order : List Nat) (P : Tasks String)
      (hP : Reachable ((tasks false "k" "new").machine.restrict everyStep) P) :
      Reachable ((tasks false "k" "new").machine.restrict everyStep) (order.foldl goOn P) := by
    induction order generalizing P with
    | nil => exact hP
    | cons i rest ih => exact ih _ (reachable_goOn hP (fun _ _ => trivial))
  have hreach : Reachable (tasks false "k" "new").machine (inOrder [1, 1, 1, 0, 0, 1, 1]) :=
    (hgoesOn _ _ (reachable_contending (fun _ _ => trivial))).of_restrict
  have hstored : ∃ task ∈ (inOrder [1, 1, 1, 0, 0, 1, 1]).tasks, task.job = .store "k" "new" := by
    refine ⟨_, List.mem_of_getElem? (i := 0) rfl, rfl⟩
  have hended : ∀ task ∈ (inOrder [1, 1, 1, 0, 0, 1, 1]).tasks, task.code.ended = true := by
    decide +kernel
  have hvalue := hall _ hreach hstored hended true
  have hold : ((inOrder [1, 1, 1, 0, 0, 1, 1]).shared.retrieve "k" true).2 = some "old" := by
    decide +kernel
  rw [hold] at hvalue
  revert hvalue
  decide

end orchestra.demotions
