-- Single flight (`memory/singleflight.py`): callers of `do` for one key share the run of
-- one function. The caller that finds no future for its key leads: it registers one and
-- runs the function. The others wait on that future itself, so that the cancellation of
-- a waiting task cancels the future of them all.
import Orchestra.Lib.Dict
import Orchestra.Lib.Machine

open dicts machine

namespace orchestra.singleflight

/-! ## Callers and futures -/

/-- How the function ended for its leader. `cancelled` is every exception that is no
`Exception`: `except Exception` does not see it. -/
inductive Outcome (V E : Type)
  | returned (value : V)
  | raised (error : E)
  | cancelled
deriving DecidableEq

/-- What a caller of `do` gets. -/
inductive Ending (V E : Type)
  | returned (value : V)
  | raised (error : E)
  | cancelled
  | invalidState
deriving DecidableEq

inductive FutureState (V E : Type)
  | pending
  | result (value : V)
  | exception (error : E)
  | cancelled
deriving DecidableEq

inductive Status (V E : Type)
  | leading
  | waiting
  | done (ending : Ending V E)
deriving DecidableEq

/-- A call of `do`. The future is named by the caller that made it. `cancelled` says
that the task of the caller has been cancelled. -/
structure Caller (V E : Type) where
  key : String
  future : Nat
  cancelled : Bool
  status : Status V E
deriving DecidableEq

/-- The flights, and how the function ended that was run for each future. -/
structure SingleFlight (V E : Type) where
  inflight : Dict String Nat
  futures : Nat → FutureState V E
  callers : List (Caller V E)
  ended : Nat → Option (Outcome V E)

section flights

variable {V E : Type}

def Caller.cancel (c : Caller V E) : Caller V E := { c with cancelled := true }

def Caller.leave (c : Caller V E) (ending : Ending V E) : Caller V E :=
  { c with status := .done ending }

def Outcome.ending : Outcome V E → Ending V E
  | .returned v => .returned v
  | .raised e => .raised e
  | .cancelled => .cancelled

/-- What `await` gives on a future that is done. -/
def FutureState.ending : FutureState V E → Option (Ending V E)
  | .pending => none
  | .result v => some (.returned v)
  | .exception e => some (.raised e)
  | .cancelled => some .cancelled

/-- `Future.cancel` -/
def FutureState.cancel : FutureState V E → FutureState V E
  | .pending => .cancelled
  | fut => fut

/-- The end of the `try` of `do`: what becomes of the future, and what the leader gets. -/
def FutureState.resolve : FutureState V E → Outcome V E → FutureState V E × Ending V E
  | fut, .cancelled => (fut, .cancelled)
  | .pending, .returned v => (.result v, .returned v)
  | .pending, .raised e => (.exception e, .raised e)
  -- `set_result` raises, and then `set_exception` does
  | fut, _ => (fut, .invalidState)

namespace SingleFlight

def empty : SingleFlight V E := ⟨.empty, fun _ => .pending, [], fun _ => none⟩

/-- A caller comes that finds the future of its key. -/
def join (s : SingleFlight V E) (key : String) (f : Nat) (status : Status V E) :
    SingleFlight V E :=
  { s with callers := s.callers ++ [⟨key, f, false, status⟩] }

/-- A caller comes that finds none. -/
def lead (s : SingleFlight V E) (key : String) : SingleFlight V E :=
  { s with
    inflight := s.inflight.set key s.callers.length
    futures := Function.update s.futures s.callers.length .pending
    callers := s.callers ++ [⟨key, s.callers.length, false, .leading⟩] }

/-- The first step of `do`. To wait on a future that is done takes no time. -/
def call (s : SingleFlight V E) (key : String) : SingleFlight V E :=
  match s.inflight.get? key with
  | some f =>
    match (s.futures f).ending with
    | some ending => s.join key f (.done ending)
    | none => s.join key f .waiting
  | none => s.lead key

/-- The function ends for the leader, who then leaves. -/
def finish (s : SingleFlight V E) (i : Nat) (c : Caller V E) (outcome : Outcome V E) :
    SingleFlight V E where
  inflight :=
    if s.inflight.get? c.key = some c.future then s.inflight.erase c.key else s.inflight
  futures := Function.update s.futures c.future ((s.futures c.future).resolve outcome).1
  callers := s.callers.set i (c.leave ((s.futures c.future).resolve outcome).2)
  ended := Function.update s.ended c.future (some outcome)

/-- The task of the caller is cancelled, and with it the future that it waits on. What
the function of a leader makes of its cancellation is the outcome of the function. -/
def cancel (s : SingleFlight V E) (i : Nat) (c : Caller V E) : SingleFlight V E :=
  match c.status with
  | .leading => { s with callers := s.callers.set i c.cancel }
  | .waiting =>
    { s with
      futures := Function.update s.futures c.future (s.futures c.future).cancel
      callers := s.callers.set i c.cancel }
  | .done _ => s

/-- What a waiting caller wakes up to. A task that was cancelled is told so, whatever
its future holds. -/
def waking (s : SingleFlight V E) (c : Caller V E) : Option (Ending V E) :=
  if c.cancelled then some .cancelled else (s.futures c.future).ending

def wake (s : SingleFlight V E) (i : Nat) (c : Caller V E) (ending : Ending V E) :
    SingleFlight V E :=
  { s with callers := s.callers.set i (c.leave ending) }

end SingleFlight

/-! ## Runs -/

inductive Step (V E : Type)
  | call (key : String)
  | finish (caller : Nat) (outcome : Outcome V E)
  | cancel (caller : Nat)
  | wake (caller : Nat)

/-- One step of the event loop, where it can be taken. -/
inductive Steps : SingleFlight V E → Step V E → SingleFlight V E → Prop
  | call (s : SingleFlight V E) (key : String) : Steps s (.call key) (s.call key)
  | finish {s : SingleFlight V E} {i : Nat} {c : Caller V E} (found : s.callers[i]? = some c)
    (leads : c.status = .leading) (outcome : Outcome V E) :
    Steps s (.finish i outcome) (s.finish i c outcome)
  | cancel {s : SingleFlight V E} {i : Nat} {c : Caller V E} (found : s.callers[i]? = some c) :
    Steps s (.cancel i) (s.cancel i c)
  | wake {s : SingleFlight V E} {i : Nat} {c : Caller V E} {ending : Ending V E}
    (found : s.callers[i]? = some c) (waits : c.status = .waiting)
    (woken : s.waking c = some ending) : Steps s (.wake i) (s.wake i c ending)

def flights (V E : Type) : Machine (SingleFlight V E) (Step V E) where
  init s := s = .empty
  step := Steps

/-! ## What single flight promises -/

/-- Caller `i` runs the function of the key. -/
def Leads (callers : List (Caller V E)) (i : Nat) (key : String) : Prop :=
  ∃ c : Caller V E, callers[i]? = some c ∧ c.key = key ∧ c.status = .leading

/-- A caller whose task is not cancelled gets what the function gave: its own function, or
the one that it joined, and that one has not been cancelled under it. -/
def Answered (s : SingleFlight V E) : Prop :=
  ∀ (i : Nat) (c : Caller V E) (ending : Ending V E), s.callers[i]? = some c →
    c.status = .done ending → c.cancelled = false →
    ∃ outcome, s.ended c.future = some outcome ∧ ending = outcome.ending ∧
      (i = c.future ∨ outcome ≠ .cancelled)

/-- A caller that waits does so for a leader, or its wait is over. -/
def Attended (s : SingleFlight V E) : Prop :=
  ∀ (i : Nat) (c : Caller V E), s.callers[i]? = some c → c.status = .waiting →
    Leads s.callers c.future c.key ∨ s.futures c.future ≠ .pending

/-- The function runs once at a time for a key, no cancellation changes what the others
get, no wait outlives the leader, and a key is registered for a leader. -/
structure Safe (s : SingleFlight V E) : Prop where
  single : ∀ i j key, Leads s.callers i key → Leads s.callers j key → i = j
  answered : Answered s
  attended : Attended s
  registered : ∀ key f, s.inflight.get? key = some f → Leads s.callers f key

/-- A step that disturbs nobody. No caller but a cancelled one meets a future that was
cancelled, and no leader is cancelled away from those who wait for it. -/
def Undisturbed (s : SingleFlight V E) : Step V E → Prop
  | .call key => ∀ f, s.inflight.get? key = some f → s.futures f ≠ .cancelled
  | .finish i .cancelled => s.futures i = .pending →
    ∀ w ∈ s.callers, w.status = .waiting → w.future ≠ i
  | .finish i _ => s.futures i = .cancelled → ∀ c, s.callers[i]? = some c → c.cancelled = true
  | .cancel _ => True
  | .wake i => ∀ c, s.callers[i]? = some c → s.futures c.future = .cancelled →
    c.cancelled = true

/-! ## One caller -/

@[simp] theorem cancel_key (c : Caller V E) : c.cancel.key = c.key := rfl

@[simp] theorem cancel_future (c : Caller V E) : c.cancel.future = c.future := rfl

@[simp] theorem cancel_status (c : Caller V E) : c.cancel.status = c.status := rfl

@[simp] theorem cancel_cancelled (c : Caller V E) : c.cancel.cancelled = true := rfl

variable {ending : Ending V E}

@[simp] theorem leave_key (c : Caller V E) : (c.leave ending).key = c.key := rfl

@[simp] theorem leave_future (c : Caller V E) : (c.leave ending).future = c.future := rfl

@[simp] theorem leave_status (c : Caller V E) : (c.leave ending).status = .done ending := rfl

@[simp] theorem leave_cancelled (c : Caller V E) :
    (c.leave ending).cancelled = c.cancelled := rfl

/-! ## What every step keeps -/

/-- The bookkeeping of the flights, which no cancellation breaks. -/
structure Sound (s : SingleFlight V E) : Prop where
  made : ∀ (i : Nat) (c : Caller V E), s.callers[i]? = some c → c.future ≤ i
  own : ∀ (i : Nat) (c : Caller V E), s.callers[i]? = some c → c.status = .leading → c.future = i
  other : ∀ (i : Nat) (c : Caller V E), s.callers[i]? = some c → c.status = .waiting →
    c.future ≠ i
  leads : ∀ i key, Leads s.callers i key → s.inflight.get? key = some i
  registered : ∀ key f, s.inflight.get? key = some f → Leads s.callers f key
  running : ∀ i key, Leads s.callers i key → s.ended i = none ∧
    (s.futures i = .pending ∨ s.futures i = .cancelled)
  unborn : ∀ f, s.callers.length ≤ f → s.ended f = none
  told : ∀ f ending, (s.futures f).ending = some ending → ending ≠ .cancelled →
    ∃ outcome, s.ended f = some outcome ∧ ending = outcome.ending ∧ outcome ≠ .cancelled

theorem Sound.single {s : SingleFlight V E} (h : Sound s) {i j : Nat} {key : String}
    (hi : Leads s.callers i key) (hj : Leads s.callers j key) : i = j :=
  Option.some.inj ((h.leads i key hi).symm.trans (h.leads j key hj))

/-- Of what single flight promises, two things hang on the cancellations. -/
theorem Sound.safe_iff {s : SingleFlight V E} (h : Sound s) : Safe s ↔ Answered s ∧ Attended s :=
  ⟨fun hs => ⟨hs.answered, hs.attended⟩,
    fun hs => ⟨fun _ _ _ => h.single, hs.1, hs.2, h.registered⟩⟩

theorem leads_lt {callers : List (Caller V E)} {i : Nat} {key : String}
    (h : Leads callers i key) : i < callers.length := by
  obtain ⟨c, hc, -⟩ := h
  exact (List.getElem?_eq_some_iff.mp hc).1

theorem not_leads_nil (i : Nat) (key : String) : ¬Leads ([] : List (Caller V E)) i key :=
  fun h => absurd (leads_lt h) (by simp)

theorem sound_empty : Sound (.empty : SingleFlight V E) where
  made i c hc := by simp [SingleFlight.empty] at hc
  own i c hc := by simp [SingleFlight.empty] at hc
  other i c hc := by simp [SingleFlight.empty] at hc
  leads i key h := absurd h (not_leads_nil i key)
  registered key f hf := by simp [SingleFlight.empty] at hf
  running i key h := absurd h (not_leads_nil i key)
  unborn _ _ := rfl
  told f ending hending := by simp [SingleFlight.empty, FutureState.ending] at hending

theorem safe_empty : Safe (.empty : SingleFlight V E) := by
  rw [sound_empty.safe_iff]
  constructor
  · intro i c ending hc
    simp [SingleFlight.empty] at hc
  · intro i c hc
    simp [SingleFlight.empty] at hc

/-! ## A call joins or leads -/

/-- The callers after one more has come. -/
theorem getElem?_snoc {xs : List (Caller V E)} {x y : Caller V E} {i : Nat} :
    (xs ++ [x])[i]? = some y ↔ xs[i]? = some y ∨ (i = xs.length ∧ y = x) := by
  rcases Nat.lt_trichotomy i xs.length with hlt | heq | hgt
  · rw [List.getElem?_append_left hlt]
    refine ⟨Or.inl, ?_⟩
    rintro (h | ⟨heq, -⟩)
    · exact h
    · omega
  · subst heq
    simp [eq_comm]
  · have hout : (xs ++ [x])[i]? = none := List.getElem?_eq_none (by simp; omega)
    have hnone : xs[i]? = none := List.getElem?_eq_none (by omega)
    rw [hout, hnone]
    simp
    omega

theorem leads_snoc {xs : List (Caller V E)} {x : Caller V E} {i : Nat} {key : String} :
    Leads (xs ++ [x]) i key ↔
      Leads xs i key ∨ (i = xs.length ∧ x.key = key ∧ x.status = .leading) := by
  unfold Leads
  simp only [getElem?_snoc]
  constructor
  · rintro ⟨c, hc | ⟨hi, rfl⟩, hkey, hstatus⟩
    · exact .inl ⟨c, hc, hkey, hstatus⟩
    · exact .inr ⟨hi, hkey, hstatus⟩
  · rintro (⟨c, hc, hkey, hstatus⟩ | ⟨hi, hkey, hstatus⟩)
    · exact ⟨c, .inl hc, hkey, hstatus⟩
    · exact ⟨x, .inr ⟨hi, rfl⟩, hkey, hstatus⟩

theorem leads_join {s : SingleFlight V E} {key : String} {f : Nat} {status : Status V E}
    (hstatus : status ≠ .leading) {i : Nat} {k : String} :
    Leads (s.join key f status).callers i k ↔ Leads s.callers i k := by
  unfold SingleFlight.join
  rw [leads_snoc]
  simp [hstatus]

theorem sound_join {s : SingleFlight V E} (h : Sound s) {key : String} {f : Nat}
    (hf : s.inflight.get? key = some f) {status : Status V E} (hstatus : status ≠ .leading) :
    Sound (s.join key f status) := by
  have hlt := leads_lt (h.registered key f hf)
  constructor
  · intro i c hc
    rcases getElem?_snoc.mp hc with hold | ⟨rfl, rfl⟩
    · exact h.made i c hold
    · exact Nat.le_of_lt hlt
  · intro i c hc hleads
    rcases getElem?_snoc.mp hc with hold | ⟨rfl, rfl⟩
    · exact h.own i c hold hleads
    · exact absurd hleads hstatus
  · intro i c hc hwaits
    rcases getElem?_snoc.mp hc with hold | ⟨rfl, rfl⟩
    · exact h.other i c hold hwaits
    · exact Nat.ne_of_lt hlt
  · intro i k hleads
    exact h.leads i k ((leads_join hstatus).mp hleads)
  · intro k g hg
    exact (leads_join hstatus).mpr (h.registered k g hg)
  · intro i k hleads
    exact h.running i k ((leads_join hstatus).mp hleads)
  · intro g hg
    apply h.unborn g
    simp only [SingleFlight.join, List.length_append, List.length_singleton] at hg
    omega
  · exact h.told

theorem leads_lead {s : SingleFlight V E} {key : String} {i : Nat} {k : String} :
    Leads (s.lead key).callers i k ↔
      Leads s.callers i k ∨ (i = s.callers.length ∧ key = k) := by
  unfold SingleFlight.lead
  rw [leads_snoc]
  simp

theorem sound_lead {s : SingleFlight V E} (h : Sound s) {key : String}
    (hf : s.inflight.get? key = none) : Sound (s.lead key) := by
  have hnew : ∀ i k, Leads s.callers i k → k ≠ key := by
    intro i k hleads hkey
    have hgot := h.leads i k hleads
    rw [hkey, hf] at hgot
    cases hgot
  constructor
  · intro i c hc
    rcases getElem?_snoc.mp hc with hold | ⟨rfl, rfl⟩
    · exact h.made i c hold
    · exact Nat.le_refl _
  · intro i c hc hleads
    rcases getElem?_snoc.mp hc with hold | ⟨rfl, rfl⟩
    · exact h.own i c hold hleads
    · rfl
  · intro i c hc hwaits
    rcases getElem?_snoc.mp hc with hold | ⟨rfl, rfl⟩
    · exact h.other i c hold hwaits
    · cases hwaits
  · intro i k hleads
    rcases leads_lead.mp hleads with hold | ⟨rfl, rfl⟩
    · have hne := (hnew i k hold).symm
      simp only [SingleFlight.lead]
      rw [Dict.get?_set_ne _ _ hne]
      exact h.leads i k hold
    · exact Dict.get?_set_self ..
  · intro k g hg
    simp only [SingleFlight.lead, Dict.get?_set] at hg
    apply leads_lead.mpr
    split at hg
    · rename_i hkey
      exact .inr ⟨(Option.some.inj hg).symm, hkey⟩
    · exact .inl (h.registered k g hg)
  · intro i k hleads
    rcases leads_lead.mp hleads with hold | ⟨rfl, rfl⟩
    · have hne := Nat.ne_of_lt (leads_lt hold)
      simp only [SingleFlight.lead, Function.update_of_ne hne]
      exact h.running i k hold
    · refine ⟨h.unborn _ (Nat.le_refl _), .inl ?_⟩
      simp [SingleFlight.lead]
  · intro g hg
    apply h.unborn g
    simp only [SingleFlight.lead, List.length_append, List.length_singleton] at hg
    omega
  · intro g ending hending hne
    by_cases hg : g = s.callers.length
    · subst hg
      simp [SingleFlight.lead, FutureState.ending] at hending
    · simp only [SingleFlight.lead, Function.update_of_ne hg] at hending
      exact h.told g ending hending hne

theorem sound_call {s : SingleFlight V E} (h : Sound s) (key : String) : Sound (s.call key) := by
  unfold SingleFlight.call
  rcases hf : s.inflight.get? key with _ | f
  · exact sound_lead h hf
  · rcases hdone : (s.futures f).ending with _ | ending
    · simp only [hdone]
      exact sound_join h hf (by simp)
    · simp only [hdone]
      exact sound_join h hf (by simp)

/-- A call disturbs nobody unless it finds a future that was cancelled. -/
theorem safe_call_iff {s : SingleFlight V E} (h : Sound s) (hs : Safe s) (key : String) :
    Safe (s.call key) ↔ Undisturbed s (.call key) := by
  rw [(sound_call h key).safe_iff]
  unfold SingleFlight.call
  rcases hf : s.inflight.get? key with _ | f
  · simp only [Undisturbed, hf]
    refine ⟨fun _ f hf => (by cases hf), fun _ => ⟨?_, ?_⟩⟩
    · intro i c ending hc hdone
      rcases getElem?_snoc.mp hc with hold | ⟨rfl, rfl⟩
      · exact hs.answered i c ending hold hdone
      · cases hdone
    · intro i c hc hwaits
      rcases getElem?_snoc.mp hc with hold | ⟨rfl, rfl⟩
      · have hlt := (List.getElem?_eq_some_iff.mp hold).1
        have hle := h.made i c hold
        have hne : c.future ≠ s.callers.length := by omega
        simp only [SingleFlight.lead, Function.update_of_ne hne]
        rcases hs.attended i c hold hwaits with hleads | hdone
        · exact .inl (leads_lead.mpr (.inl hleads))
        · exact .inr hdone
      · cases hwaits
  · have hleads := h.registered key f hf
    obtain ⟨hunended, hpending | hcancelled⟩ := h.running f key hleads
    · simp only [hpending, FutureState.ending, Undisturbed, hf]
      refine ⟨fun _ g hg => ?_, fun _ => ⟨?_, ?_⟩⟩
      · obtain rfl := Option.some.inj hg
        simp [hpending]
      · intro i c ending hc hdone
        rcases getElem?_snoc.mp hc with hold | ⟨rfl, rfl⟩
        · exact hs.answered i c ending hold hdone
        · cases hdone
      · intro i c hc hwaits
        rw [leads_join (by simp)]
        rcases getElem?_snoc.mp hc with hold | ⟨rfl, rfl⟩
        · exact hs.attended i c hold hwaits
        · exact .inl hleads
    · simp only [hcancelled, FutureState.ending, Undisturbed, hf]
      refine ⟨fun hsafe => ?_, fun hcalm => absurd hcancelled (hcalm f rfl)⟩
      -- the newcomer is told of a cancellation while the function still runs
      obtain ⟨outcome, hended, -⟩ := hsafe.1 s.callers.length ⟨key, f, false, .done .cancelled⟩
        .cancelled (getElem?_snoc.mpr (.inr ⟨rfl, rfl⟩)) rfl rfl
      have hnone : (s.join key f (.done .cancelled)).ended f = none := hunended
      rw [hnone] at hended
      cases hended

/-! ## One caller changes -/

/-- The callers after the one at `i` has changed. -/
theorem getElem?_set_found {xs : List (Caller V E)} {i j : Nat} {c x y : Caller V E}
    (hc : xs[i]? = some c) :
    (xs.set i x)[j]? = some y ↔ (j = i ∧ y = x) ∨ (j ≠ i ∧ xs[j]? = some y) := by
  have hlt := (List.getElem?_eq_some_iff.mp hc).1
  by_cases hij : i = j
  · subst hij
    rw [List.getElem?_set_self hlt]
    simp [eq_comm]
  · rw [List.getElem?_set_ne hij]
    simp [Ne.symm hij]

theorem leads_set {xs : List (Caller V E)} {i j : Nat} {c x : Caller V E} {key : String}
    (hc : xs[i]? = some c) :
    Leads (xs.set i x) j key ↔
      (j = i ∧ x.key = key ∧ x.status = .leading) ∨ (j ≠ i ∧ Leads xs j key) := by
  unfold Leads
  simp only [getElem?_set_found hc]
  constructor
  · rintro ⟨d, ⟨hj, rfl⟩ | ⟨hj, hd⟩, hkey, hstatus⟩
    · exact .inl ⟨hj, hkey, hstatus⟩
    · exact .inr ⟨hj, d, hd, hkey, hstatus⟩
  · rintro (⟨hj, hkey, hstatus⟩ | ⟨hj, d, hd, hkey, hstatus⟩)
    · exact ⟨x, .inl ⟨hj, rfl⟩, hkey, hstatus⟩
    · exact ⟨d, .inr ⟨hj, hd⟩, hkey, hstatus⟩

/-- A change that leaves a leader a leader and makes no new one. -/
theorem leads_set_same {xs : List (Caller V E)} {i j : Nat} {c x : Caller V E} {key : String}
    (hc : xs[i]? = some c) (hkey : x.key = c.key)
    (hstatus : x.status = .leading ↔ c.status = .leading) :
    Leads (xs.set i x) j key ↔ Leads xs j key := by
  rw [leads_set hc, hkey, hstatus]
  constructor
  · rintro (⟨rfl, hsame, hleads⟩ | ⟨-, h⟩)
    · exact ⟨c, hc, hsame, hleads⟩
    · exact h
  · rintro ⟨d, hd, hsame, hleads⟩
    by_cases hj : j = i
    · subst hj
      rw [hc] at hd
      obtain rfl := Option.some.inj hd
      exact .inl ⟨rfl, hsame, hleads⟩
    · exact .inr ⟨hj, d, hd, hsame, hleads⟩

/-- A caller that does not begin to lead or to wait changes, and futures may be cancelled. -/
theorem Sound.change {s : SingleFlight V E} (h : Sound s) {i : Nat} {c x : Caller V E}
    (hc : s.callers[i]? = some c) (hkey : x.key = c.key) (hfuture : x.future = c.future)
    (hleading : x.status = .leading ↔ c.status = .leading)
    (hwaiting : x.status = .waiting → c.status = .waiting) {futures : Nat → FutureState V E}
    (hfutures : ∀ f, futures f = s.futures f ∨ futures f = .cancelled) :
    Sound { s with futures := futures, callers := s.callers.set i x } := by
  have hsame : ∀ {j k}, Leads (s.callers.set i x) j k ↔ Leads s.callers j k :=
    leads_set_same hc hkey hleading
  constructor
  · intro j d hd
    rcases (getElem?_set_found hc).mp hd with ⟨rfl, rfl⟩ | ⟨-, hold⟩
    · exact hfuture ▸ h.made j c hc
    · exact h.made j d hold
  · intro j d hd hstatus
    rcases (getElem?_set_found hc).mp hd with ⟨rfl, rfl⟩ | ⟨-, hold⟩
    · exact hfuture ▸ h.own j c hc (hleading.mp hstatus)
    · exact h.own j d hold hstatus
  · intro j d hd hstatus
    rcases (getElem?_set_found hc).mp hd with ⟨rfl, rfl⟩ | ⟨-, hold⟩
    · exact hfuture ▸ h.other j c hc (hwaiting hstatus)
    · exact h.other j d hold hstatus
  · exact fun j k hj => h.leads j k (hsame.mp hj)
  · exact fun k g hg => hsame.mpr (h.registered k g hg)
  · intro j k hj
    obtain ⟨hunended, hstate⟩ := h.running j k (hsame.mp hj)
    refine ⟨hunended, ?_⟩
    rcases hfutures j with hkept | hcancelled
    · simpa only [hkept] using hstate
    · exact .inr hcancelled
  · intro f hf
    rw [List.length_set] at hf
    exact h.unborn f hf
  · intro f ending hending hne
    rcases hfutures f with hkept | hcancelled
    · exact h.told f ending (hkept ▸ hending) hne
    · simp only [hcancelled, FutureState.ending, Option.some.injEq] at hending
      exact absurd hending.symm hne

/-! ## A leader ends -/

theorem leads_finish {s : SingleFlight V E} {i j : Nat} {c : Caller V E} {outcome : Outcome V E}
    {key : String} (hc : s.callers[i]? = some c) :
    Leads (s.finish i c outcome).callers j key ↔ j ≠ i ∧ Leads s.callers j key := by
  unfold SingleFlight.finish
  rw [leads_set hc]
  simp

theorem sound_finish {s : SingleFlight V E} (h : Sound s) {i : Nat} {c : Caller V E}
    (hc : s.callers[i]? = some c) (hleads : c.status = .leading) (outcome : Outcome V E) :
    Sound (s.finish i c outcome) := by
  have hlead : Leads s.callers i c.key := ⟨c, hc, rfl, hleads⟩
  have hfuture := h.own i c hc hleads
  have hinflight := h.leads i c.key hlead
  have hrunning := (h.running i c.key hlead).2
  constructor
  · intro j d hd
    rcases (getElem?_set_found hc).mp hd with ⟨rfl, rfl⟩ | ⟨-, hold⟩
    · exact h.made j c hc
    · exact h.made j d hold
  · intro j d hd hstatus
    rcases (getElem?_set_found hc).mp hd with ⟨rfl, rfl⟩ | ⟨-, hold⟩
    · cases hstatus
    · exact h.own j d hold hstatus
  · intro j d hd hstatus
    rcases (getElem?_set_found hc).mp hd with ⟨rfl, rfl⟩ | ⟨-, hold⟩
    · cases hstatus
    · exact h.other j d hold hstatus
  · intro j k hj
    obtain ⟨hji, hold⟩ := (leads_finish hc).mp hj
    have hgot := h.leads j k hold
    have hne : c.key ≠ k := by
      intro hkey
      rw [← hkey, hinflight] at hgot
      exact hji (Option.some.inj hgot).symm
    simp only [SingleFlight.finish, hfuture, hinflight, if_true]
    rw [Dict.get?_erase, if_neg hne]
    exact hgot
  · intro k g hg
    simp only [SingleFlight.finish, hfuture, hinflight, if_true, Dict.get?_erase] at hg
    split at hg
    · cases hg
    · rename_i hne
      have hold := h.registered k g hg
      refine (leads_finish hc).mpr ⟨?_, hold⟩
      rintro rfl
      obtain ⟨d, hd, hkey, -⟩ := hold
      rw [hc] at hd
      obtain rfl := Option.some.inj hd
      exact hne hkey
  · intro j k hj
    obtain ⟨hji, hold⟩ := (leads_finish hc).mp hj
    simp only [SingleFlight.finish, hfuture, Function.update_of_ne hji]
    exact h.running j k hold
  · intro f hf
    simp only [SingleFlight.finish, List.length_set] at hf
    have hlt := (List.getElem?_eq_some_iff.mp hc).1
    have hne : f ≠ i := by omega
    simp only [SingleFlight.finish, hfuture, Function.update_of_ne hne]
    exact h.unborn f hf
  · intro f ending hending hne
    by_cases hf : f = i
    · subst hf
      simp only [SingleFlight.finish, hfuture, Function.update_self] at hending ⊢
      refine ⟨outcome, rfl, ?_⟩
      rcases hrunning with hpending | hcancelled
      · cases outcome with
        | returned v => simpa [hpending, FutureState.resolve, FutureState.ending, Outcome.ending,
            eq_comm] using hending
        | raised e => simpa [hpending, FutureState.resolve, FutureState.ending, Outcome.ending,
            eq_comm] using hending
        | cancelled => simp [hpending, FutureState.resolve, FutureState.ending] at hending
      · cases outcome <;>
          simp [hcancelled, FutureState.resolve, FutureState.ending] at hending <;>
          exact absurd hending.symm hne
    · simp only [SingleFlight.finish, hfuture, Function.update_of_ne hf] at hending ⊢
      exact h.told f ending hending hne

/-- Of the others, nobody has an answer from a function that still runs. -/
theorem answered_finish_iff {s : SingleFlight V E} (h : Sound s) (hs : Safe s) {i : Nat}
    {c : Caller V E} (hc : s.callers[i]? = some c) (hleads : c.status = .leading)
    (outcome : Outcome V E) :
    Answered (s.finish i c outcome) ↔
      (c.cancelled = false → ((s.futures i).resolve outcome).2 = outcome.ending) := by
  have hfuture := h.own i c hc hleads
  have hunended := (h.running i c.key ⟨c, hc, rfl, hleads⟩).1
  have hended : (s.finish i c outcome).ended i = some outcome := by
    simp [SingleFlight.finish, hfuture]
  constructor
  · intro hanswered hcancelled
    obtain ⟨given, hgiven, hending, -⟩ := hanswered i _ _
      ((getElem?_set_found hc).mpr (.inl ⟨rfl, rfl⟩)) rfl hcancelled
    rw [leave_future, hfuture, hended] at hgiven
    obtain rfl := Option.some.inj hgiven
    rwa [hfuture] at hending
  · intro hown j d ending hd hstatus hcancelled
    rcases (getElem?_set_found hc).mp hd with ⟨rfl, rfl⟩ | ⟨-, hold⟩
    · simp only [leave_status, Status.done.injEq, hfuture] at hstatus
      rw [hown hcancelled] at hstatus
      rw [leave_future, hfuture]
      exact ⟨outcome, hended, hstatus.symm, .inl rfl⟩
    · obtain ⟨given, hgiven, hrest⟩ := hs.answered j d ending hold hstatus hcancelled
      have hne : d.future ≠ i := by
        intro heq
        rw [heq, hunended] at hgiven
        cases hgiven
      refine ⟨given, ?_, hrest⟩
      simpa only [SingleFlight.finish, hfuture, Function.update_of_ne hne] using hgiven

theorem attended_finish_iff {s : SingleFlight V E} (h : Sound s) (hs : Safe s) {i : Nat}
    {c : Caller V E} (hc : s.callers[i]? = some c) (hleads : c.status = .leading)
    (outcome : Outcome V E) :
    Attended (s.finish i c outcome) ↔
      (((s.futures i).resolve outcome).1 = .pending →
        ∀ w ∈ s.callers, w.status = .waiting → w.future ≠ i) := by
  have hfuture := h.own i c hc hleads
  constructor
  · intro hattended hpending w hw hwaits heq
    obtain ⟨j, hj⟩ := List.getElem?_of_mem hw
    have hji : j ≠ i := by
      rintro rfl
      rw [hc] at hj
      obtain rfl := Option.some.inj hj
      rw [hleads] at hwaits
      cases hwaits
    rcases hattended j w ((getElem?_set_found hc).mpr (.inr ⟨hji, hj⟩)) hwaits with hstill | hdone
    · exact ((leads_finish hc).mp hstill).1 heq
    · apply hdone
      simp only [SingleFlight.finish, hfuture, heq, Function.update_self]
      exact hpending
  · intro halone j w hw hwaits
    rcases (getElem?_set_found hc).mp hw with ⟨rfl, rfl⟩ | ⟨-, hold⟩
    · cases hwaits
    · by_cases heq : w.future = i
      · refine .inr fun hpending => ?_
        simp only [SingleFlight.finish, hfuture, heq, Function.update_self] at hpending
        exact halone hpending w (List.mem_of_getElem? hold) hwaits heq
      · have hsame : (s.finish i c outcome).futures w.future = s.futures w.future := by
          simp only [SingleFlight.finish, hfuture, Function.update_of_ne heq]
        rw [hsame]
        rcases hs.attended j w hold hwaits with hstill | hdone
        · exact .inl ((leads_finish hc).mpr ⟨heq, hstill⟩)
        · exact .inr hdone

/-- The end of a function disturbs nobody unless it finds its future cancelled, or is
itself a cancellation while others wait. -/
theorem safe_finish_iff {s : SingleFlight V E} (h : Sound s) (hs : Safe s) {i : Nat}
    {c : Caller V E} (hc : s.callers[i]? = some c) (hleads : c.status = .leading)
    (outcome : Outcome V E) :
    Safe (s.finish i c outcome) ↔ Undisturbed s (.finish i outcome) := by
  rw [(sound_finish h hc hleads outcome).safe_iff, answered_finish_iff h hs hc hleads,
    attended_finish_iff h hs hc hleads]
  have hrunning := (h.running i c.key ⟨c, hc, rfl, hleads⟩).2
  cases outcome with
  | cancelled => simp [FutureState.resolve, Outcome.ending, Undisturbed]
  | returned v =>
    rcases hrunning with hpending | hcancelled
    · simp [hpending, FutureState.resolve, Outcome.ending, Undisturbed]
    · simp [hcancelled, FutureState.resolve, Outcome.ending, Undisturbed, hc]
  | raised e =>
    rcases hrunning with hpending | hcancelled
    · simp [hpending, FutureState.resolve, Outcome.ending, Undisturbed]
    · simp [hcancelled, FutureState.resolve, Outcome.ending, Undisturbed, hc]

/-! ## A caller is cancelled -/

theorem cancel_eq (fut : FutureState V E) : fut.cancel = fut ∨ fut.cancel = .cancelled := by
  cases fut <;> simp [FutureState.cancel]

/-- Of the futures, only the one that the caller waits on may change. -/
theorem futures_cancel {s : SingleFlight V E} {f g : Nat} :
    Function.update s.futures f (s.futures f).cancel g = s.futures g ∨
      Function.update s.futures f (s.futures f).cancel g = .cancelled := by
  by_cases hg : g = f
  · subst hg
    rw [Function.update_self]
    exact cancel_eq _
  · rw [Function.update_of_ne hg]
    exact .inl rfl

/-- A cancellation marks the caller, and cancels at most futures. -/
theorem cancel_cases (s : SingleFlight V E) (i : Nat) (c : Caller V E) :
    s.cancel i c = s ∨ ∃ futures : Nat → FutureState V E,
      (∀ f, futures f = s.futures f ∨ futures f = .cancelled) ∧
        s.cancel i c = { s with futures := futures, callers := s.callers.set i c.cancel } := by
  unfold SingleFlight.cancel
  rcases c.status with _ | _ | ending
  · exact .inr ⟨s.futures, fun _ => .inl rfl, rfl⟩
  · exact .inr ⟨_, fun _ => futures_cancel, rfl⟩
  · exact .inl rfl

theorem sound_cancel {s : SingleFlight V E} (h : Sound s) {i : Nat} {c : Caller V E}
    (hc : s.callers[i]? = some c) : Sound (s.cancel i c) := by
  rcases cancel_cases s i c with hsame | ⟨futures, hfutures, hcancel⟩
  · rwa [hsame]
  · rw [hcancel]
    exact h.change hc (cancel_key c) (cancel_future c) (by simp) (by simp) hfutures

/-- The cancellation of a caller takes nothing from the others at once. -/
theorem safe_cancel {s : SingleFlight V E} (h : Sound s) (hs : Safe s) {i : Nat} {c : Caller V E}
    (hc : s.callers[i]? = some c) : Safe (s.cancel i c) := by
  rw [(sound_cancel h hc).safe_iff]
  rcases cancel_cases s i c with hsame | ⟨futures, hfutures, hcancel⟩
  · rw [hsame]
    exact ⟨hs.answered, hs.attended⟩
  rw [hcancel]
  constructor
  · intro j d ending hd hdone hfree
    rcases (getElem?_set_found hc).mp hd with ⟨rfl, rfl⟩ | ⟨-, hold⟩
    · cases hfree
    · exact hs.answered j d ending hold hdone hfree
  · intro j d hd hwaits
    have hleads : Leads (s.callers.set i c.cancel) d.future d.key ↔
        Leads s.callers d.future d.key := leads_set_same hc (cancel_key c) (by simp)
    have hattended : Leads s.callers d.future d.key ∨ s.futures d.future ≠ .pending := by
      rcases (getElem?_set_found hc).mp hd with ⟨rfl, rfl⟩ | ⟨-, hold⟩
      · exact hs.attended j c hc hwaits
      · exact hs.attended j d hold hwaits
    rcases hattended with hstill | hdone
    · exact .inl (hleads.mpr hstill)
    · right
      rcases hfutures d.future with hkept | hcancelled
      · simpa only [hkept] using hdone
      · simp [hcancelled]

/-! ## A wait ends -/

theorem sound_wake {s : SingleFlight V E} (h : Sound s) {i : Nat} {c : Caller V E}
    (hc : s.callers[i]? = some c) (hwaits : c.status = .waiting) (ending : Ending V E) :
    Sound (s.wake i c ending) := by
  exact h.change hc (leave_key c) (leave_future c) (by simp [hwaits]) (by simp) fun _ => .inl rfl

/-- The end of a wait disturbs nobody unless the future was cancelled under it. -/
theorem safe_wake_iff {s : SingleFlight V E} (h : Sound s) (hs : Safe s) {i : Nat}
    {c : Caller V E} (hc : s.callers[i]? = some c) (hwaits : c.status = .waiting)
    {ending : Ending V E} (hwoken : s.waking c = some ending) :
    Safe (s.wake i c ending) ↔ Undisturbed s (.wake i) := by
  have hsame : ∀ {j k}, Leads (s.wake i c ending).callers j k ↔ Leads s.callers j k :=
    leads_set_same hc rfl (by simp [hwaits])
  have hattended : Attended (s.wake i c ending) := by
    intro j d hd hstatus
    rcases (getElem?_set_found hc).mp hd with ⟨rfl, rfl⟩ | ⟨-, hold⟩
    · cases hstatus
    · rw [hsame]
      exact hs.attended j d hold hstatus
  rw [(sound_wake h hc hwaits ending).safe_iff, and_iff_left hattended]
  simp only [Undisturbed, hc, Option.some.injEq, forall_eq']
  constructor
  · intro hanswered hcancelled
    by_contra hown
    have hfree : c.cancelled = false := by simpa using hown
    have hending : ending = .cancelled := by
      simpa [SingleFlight.waking, hfree, hcancelled, FutureState.ending, eq_comm] using hwoken
    obtain ⟨outcome, -, hsaid, hother⟩ := hanswered i _ ending
      ((getElem?_set_found hc).mpr (.inl ⟨rfl, rfl⟩)) rfl hfree
    rw [hending] at hsaid
    rcases hother with heq | hne
    · exact h.other i c hc hwaits heq.symm
    · cases outcome with
      | cancelled => exact hne rfl
      | returned v => cases hsaid
      | raised e => cases hsaid
  · intro hcalm j d given hd hstatus hfree
    rcases (getElem?_set_found hc).mp hd with ⟨rfl, rfl⟩ | ⟨-, hold⟩
    · obtain rfl := Status.done.inj hstatus
      have hnot : s.futures c.future ≠ .cancelled := by
        intro hcancelled
        rw [leave_cancelled, hcalm hcancelled] at hfree
        cases hfree
      have hstate : (s.futures c.future).ending = some ending := by
        simpa [SingleFlight.waking, show c.cancelled = false from hfree] using hwoken
      have hne : ending ≠ .cancelled := by
        rintro rfl
        rcases hfut : s.futures c.future with _ | v | e | _
        · simp [hfut, FutureState.ending] at hstate
        · simp [hfut, FutureState.ending] at hstate
        · simp [hfut, FutureState.ending] at hstate
        · exact hnot hfut
      obtain ⟨outcome, hended, hsaid, hother⟩ := h.told c.future ending hstate hne
      exact ⟨outcome, hended, hsaid, .inr hother⟩
    · exact hs.answered j d given hold hstatus hfree

/-! ## Runs without a disturbance -/

theorem sound_step {s t : SingleFlight V E} {a : Step V E} (h : Sound s) (ha : Steps s a t) :
    Sound t := by
  cases ha with
  | call key => exact sound_call h key
  | finish hc hleads outcome => exact sound_finish h hc hleads outcome
  | cancel hc => exact sound_cancel h hc
  | wake hc hwaits hwoken => exact sound_wake h hc hwaits _

/-- What single flight promises survives exactly the steps that disturb nobody. -/
theorem safe_step_iff {s t : SingleFlight V E} {a : Step V E} (h : Sound s) (hs : Safe s)
    (ha : Steps s a t) : Safe t ↔ Undisturbed s a := by
  cases ha with
  | call key => exact safe_call_iff h hs key
  | finish hc hleads outcome => exact safe_finish_iff h hs hc hleads outcome
  | cancel hc => exact ⟨fun _ => trivial, fun _ => safe_cancel h hs hc⟩
  | wake hc hwaits hwoken => exact safe_wake_iff h hs hc hwaits hwoken

theorem steps_deterministic (s : SingleFlight V E) (a : Step V E) (t u : SingleFlight V E)
    (ht : Steps s a t) (hu : Steps s a u) : t = u := by
  cases ht with
  | call key =>
    cases hu
    rfl
  | finish hc hleads outcome =>
    cases hu with
    | finish hd =>
      obtain rfl := Option.some.inj (hc.symm.trans hd)
      rfl
  | cancel hc =>
    cases hu with
    | cancel hd =>
      obtain rfl := Option.some.inj (hc.symm.trans hd)
      rfl
  | wake hc hwaits hwoken =>
    cases hu with
    | wake hd _ hsaid =>
      obtain rfl := Option.some.inj (hc.symm.trans hd)
      obtain rfl := Option.some.inj (hwoken.symm.trans hsaid)
      rfl

theorem sound_run {s : SingleFlight V E} {steps : List (Step V E)}
    (h : Run (flights V E) .empty steps s) : Sound s :=
  h.invariant (fun _ _ _ => sound_step) sound_empty

/-- Single flight is safe in every state of a run exactly when no step disturbs anybody. -/
theorem single_flight_is_safe_iff {steps : List (Step V E)} {s : SingleFlight V E}
    (h : Run (flights V E) .empty steps s) :
    Throughout (flights V E) Safe .empty steps ↔
      Run ((flights V E).restrict Undisturbed) .empty steps s := by
  let I : SingleFlight V E → Prop := fun s => Sound s ∧ Safe s
  have hboth : Throughout (flights V E) I .empty steps ↔
      Throughout (flights V E) Safe .empty steps :=
    ⟨fun hall bs cs t heq hrun => (hall bs cs t heq hrun).2,
      fun hall bs cs t heq hrun => ⟨sound_run hrun, hall bs cs t heq hrun⟩⟩
  rw [← hboth]
  apply h.throughout_iff steps_deterministic ?_ ⟨sound_empty, safe_empty⟩
  intro s a t hs ha
  rw [← safe_step_iff hs.1 hs.2 ha]
  exact ⟨fun ht => ht.2, fun ht => ⟨sound_step hs.1 ha, ht⟩⟩

end flights

/-- Two callers of one key. -/
def joined : SingleFlight Nat String := (SingleFlight.empty.call "k").call "k"

theorem joined_callers :
    joined.callers = [⟨"k", 0, false, .leading⟩, ⟨"k", 0, false, .waiting⟩] := by
  decide +kernel

theorem joined_future : joined.futures 0 = .pending := by decide +kernel

/-- The second caller is cancelled when the result is there. -/
theorem a_late_cancellation_is_safe :
    Throughout (flights Nat String) Safe .empty
      [.call "k", .call "k", .finish 0 (.returned 42), .cancel 1, .wake 1] := by
  have hleader : joined.callers[0]? = some ⟨"k", 0, false, .leading⟩ := by rw [joined_callers]; rfl
  let served := joined.finish 0 ⟨"k", 0, false, .leading⟩ (.returned 42)
  have hwaiting : served.callers[1]? = some ⟨"k", 0, false, .waiting⟩ := by decide +kernel
  let marked := served.cancel 1 ⟨"k", 0, false, .waiting⟩
  have hmarked : marked.callers[1]? = some ⟨"k", 0, true, .waiting⟩ := by decide +kernel
  have hrun : Run ((flights Nat String).restrict Undisturbed) .empty
      [.call "k", .call "k", .finish 0 (.returned 42), .cancel 1, .wake 1]
      (marked.wake 1 ⟨"k", 0, true, .waiting⟩ .cancelled) := by
    refine .step ⟨.call _ _, fun f hf => ?_⟩ (.step ⟨.call _ _, fun f hf => ?_⟩
      (.step ⟨.finish hleader rfl _, fun hfut => ?_⟩ (.step ⟨.cancel hwaiting, trivial⟩
        (.step ⟨.wake hmarked rfl rfl, fun c hc _ => ?_⟩ (.stay _)))))
    · cases hf
    · intro hfut
      obtain rfl : 0 = f := by
        have hfound : (SingleFlight.empty.call "k" : SingleFlight Nat String).inflight.get? "k" =
            some 0 := by decide +kernel
        exact Option.some.inj (hfound.symm.trans hf)
      cases hfut
    · rw [show ((SingleFlight.empty.call "k").call "k" : SingleFlight Nat String).futures 0 =
        .pending from joined_future] at hfut
      cases hfut
    · obtain rfl := Option.some.inj (hmarked.symm.trans hc)
      rfl
  exact (single_flight_is_safe_iff hrun.of_restrict).mpr hrun

/-- The cancellation of one of two callers takes the result of the leader in the first
run, and in the second one leaves the other caller to wait for good. -/
theorem cancellations_disturb_others :
    (∃ s : SingleFlight Nat String, Run (flights Nat String) .empty
      [.call "k", .call "k", .cancel 1, .finish 0 (.returned 42)] s ∧ ¬Safe s) ∧
    ∃ s : SingleFlight Nat String, Run (flights Nat String) .empty
      [.call "k", .call "k", .cancel 0, .finish 0 .cancelled] s ∧ ¬Safe s := by
  constructor
  · have hfollower : joined.callers[1]? = some ⟨"k", 0, false, .waiting⟩ := by decide +kernel
    let marked := joined.cancel 1 ⟨"k", 0, false, .waiting⟩
    have hleader : marked.callers[0]? = some ⟨"k", 0, false, .leading⟩ := by decide +kernel
    let left := marked.finish 0 ⟨"k", 0, false, .leading⟩ (.returned 42)
    refine ⟨left, .step (.call _ _) (.step (.call _ _) (.step (.cancel hfollower)
      (.step (.finish hleader rfl _) (.stay _)))), fun hsafe => ?_⟩
    have hanswer : left.callers[0]? = some ⟨"k", 0, false, .done .invalidState⟩ := by
      decide +kernel
    obtain ⟨outcome, -, hending, -⟩ := hsafe.answered 0 _ .invalidState hanswer rfl rfl
    cases outcome <;> cases hending
  · have hleader : joined.callers[0]? = some ⟨"k", 0, false, .leading⟩ := by decide +kernel
    let marked := joined.cancel 0 ⟨"k", 0, false, .leading⟩
    have hmarked : marked.callers[0]? = some ⟨"k", 0, true, .leading⟩ := by decide +kernel
    let left := marked.finish 0 ⟨"k", 0, true, .leading⟩ .cancelled
    refine ⟨left, .step (.call _ _) (.step (.call _ _) (.step (.cancel hleader)
      (.step (.finish hmarked rfl _) (.stay _)))), fun hsafe => ?_⟩
    have hwaits : left.callers[1]? = some ⟨"k", 0, false, .waiting⟩ := by decide +kernel
    have hpending : left.futures 0 = .pending := by decide +kernel
    rcases hsafe.attended 1 _ hwaits rfl with ⟨c, hc, -, hleads⟩ | hdone
    · have hgone : left.callers[0]? = some ⟨"k", 0, true, .done .cancelled⟩ := by decide +kernel
      obtain rfl := Option.some.inj (hgone.symm.trans hc)
      cases hleads
    · exact hdone hpending

end orchestra.singleflight
