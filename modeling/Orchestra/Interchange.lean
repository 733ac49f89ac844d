-- The two event stores side by side. Both remember the same log of what was
-- written, each in its own way, and a question brings the difference out or not.
import Orchestra.Lib.Batch
import Orchestra.Stores
import Mathlib.Data.List.Induction
import Mathlib.Data.List.Nodup

open batches dicts jsons latests orchestra.edges orchestra.events orchestra.coding orchestra.stores

namespace orchestra.interchange

/-! ## The protocol -/

inductive Operation
  | append (e : StoreEvent)
  | saveCheckpoint (c : Checkpoint)
  | getEvents (runId : String) (afterSequence : Int) (eventTypes : Option (List EventType))
  | getLatestCheckpoint (runId : String)
  | listRuns (limit : Int) (status : Option String)

inductive Answer
  | done
  | raised
  | events (es : List StoreEvent)
  | checkpoint (c : Option Checkpoint)
  | runs (rs : List RunSummary)
deriving DecidableEq

def memoryStep (s : InMemoryEventStore) : Operation → InMemoryEventStore × Answer
  | .append e => (s.append e, .done)
  | .saveCheckpoint c => (s.saveCheckpoint c, .done)
  | .getEvents runId afterSequence eventTypes =>
    (s, .events (s.getEvents runId afterSequence eventTypes))
  | .getLatestCheckpoint runId => (s, .checkpoint (s.getLatestCheckpoint runId))
  | .listRuns limit status => (s, .runs (s.listRuns limit status))

def sqliteStep (codec : EventCodec) (fallback : Fallback) (s : SQLiteEventStore) :
    Operation → SQLiteEventStore × Answer
  | .append e => (s.append codec e).elim (s, .raised) (·, .done)
  | .saveCheckpoint c => (s.saveCheckpoint fallback c).elim (s, .raised) (·, .done)
  | .getEvents runId afterSequence eventTypes =>
    (s, (s.getEvents codec runId afterSequence eventTypes).elim .raised .events)
  | .getLatestCheckpoint runId => (s, (s.getLatestCheckpoint runId).elim .raised .checkpoint)
  | .listRuns limit status => (s, (s.listRuns limit status).elim .raised .runs)

/-- The answers of a store to a sequence of operations. -/
def answers {σ : Type} (step : σ → Operation → σ × Answer) : σ → List Operation → List Answer
  | _, [] => []
  | s, op :: ops => (step s op).2 :: answers step (step s op).1 ops

/-! ## The log -/

/-- What was written so far, in its order. -/
structure Log where
  events : List StoreEvent
  checkpoints : List Checkpoint

def Log.record (log : Log) : Operation → Log
  | .append e => { log with events := log.events ++ [e] }
  | .saveCheckpoint c => { log with checkpoints := log.checkpoints ++ [c] }
  | _ => log

/-- The events that a query asks for. -/
def asksFor (runId : String) (afterSequence : Int) (eventTypes : Option (List EventType))
    (e : StoreEvent) : Bool :=
  e.runId = runId && (e.sequence > afterSequence &&
    match eventTypes with
    | none | some [] => true
    | some types => types.contains e.eventType)

/-- The first event of each id. -/
def firstEvents (events : List StoreEvent) : List StoreEvent :=
  events.foldl (fun kept e => if kept.any (fun k => k.eventId = e.eventId) then kept
    else kept ++ [e]) []

/-- The last checkpoint of each id, in the order in which they were saved. -/
def lastCheckpoints (checkpoints : List Checkpoint) : List Checkpoint :=
  checkpoints.foldl (fun kept c => kept.filter (fun k => k.checkpointId ≠ c.checkpointId) ++ [c]) []

theorem firstEvents_snoc (events : List StoreEvent) (e : StoreEvent) :
    firstEvents (events ++ [e]) =
      if (firstEvents events).any (fun k => k.eventId = e.eventId) then firstEvents events
      else firstEvents events ++ [e] := by
  unfold firstEvents
  rw [List.foldl_append]
  rfl

theorem lastCheckpoints_snoc (checkpoints : List Checkpoint) (c : Checkpoint) :
    lastCheckpoints (checkpoints ++ [c]) =
      (lastCheckpoints checkpoints).filter (fun k => k.checkpointId ≠ c.checkpointId) ++ [c] := by
  unfold lastCheckpoints
  rw [List.foldl_append]
  rfl

/-! ## The events that are kept -/

theorem firstEvents_sublist (events : List StoreEvent) : (firstEvents events).Sublist events := by
  induction events using List.reverseRecOn with
  | nil => exact List.Sublist.slnil
  | append_singleton events e ih =>
    rw [firstEvents_snoc]
    split
    · exact ih.trans (List.sublist_append_left _ _)
    · exact ih.append (List.Sublist.refl _)

theorem mem_ids_firstEvents (events : List StoreEvent) (id : String) :
    (∃ k ∈ firstEvents events, k.eventId = id) ↔ ∃ e ∈ events, e.eventId = id := by
  constructor
  · rintro ⟨k, hk, hid⟩
    exact ⟨k, (firstEvents_sublist events).subset hk, hid⟩
  · rintro ⟨e, he, hid⟩
    induction events using List.reverseRecOn with
    | nil => cases he
    | append_singleton events last ih =>
      rw [firstEvents_snoc]
      rcases List.mem_append.mp he with he | he
      · obtain ⟨k, hk, hkid⟩ := ih he
        split
        · exact ⟨k, hk, hkid⟩
        · exact ⟨k, List.mem_append_left _ hk, hkid⟩
      · rw [List.mem_singleton] at he
        subst he
        split
        · rename_i hany
          obtain ⟨k, hk, hkid⟩ := List.any_eq_true.mp hany
          exact ⟨k, hk, (of_decide_eq_true hkid).trans hid⟩
        · exact ⟨e, List.mem_append_right _ (List.mem_singleton_self e), hid⟩

theorem firstEvents_nodup (events : List StoreEvent) :
    ((firstEvents events).map (·.eventId)).Nodup := by
  induction events using List.reverseRecOn with
  | nil => exact List.nodup_nil
  | append_singleton events e ih =>
    rw [firstEvents_snoc]
    split
    · exact ih
    · rename_i hany
      rw [List.map_append, List.nodup_append]
      refine ⟨ih, List.nodup_singleton _, ?_⟩
      intro a ha b hb hab
      obtain ⟨k, hk, rfl⟩ := List.mem_map.mp ha
      simp only [List.map_cons, List.map_nil, List.mem_singleton] at hb
      exact hany (List.any_eq_true.mpr ⟨k, hk, decide_eq_true (hab.trans hb)⟩)

/-- An event has an id that no event before it had. -/
def Fresh (events : List StoreEvent) (selected : StoreEvent → Bool) : Prop :=
  ∀ before e after, events = before ++ e :: after → selected e = true →
    ∀ d ∈ before, d.eventId ≠ e.eventId

theorem fresh_snoc_iff (events : List StoreEvent) (e : StoreEvent) (selected : StoreEvent → Bool) :
    Fresh (events ++ [e]) selected ↔
      Fresh events selected ∧ (selected e = true → ∀ d ∈ events, d.eventId ≠ e.eventId) := by
  constructor
  · intro h
    refine ⟨fun before x after heq => ?_, h events e [] rfl⟩
    exact h before x (after ++ [e]) (by simp [heq])
  · rintro ⟨hevents, hlast⟩ before x after heq
    rcases List.eq_nil_or_concat after with rfl | ⟨after', last, rfl⟩
    · obtain ⟨rfl, hx⟩ := List.append_inj' heq rfl
      cases hx
      exact hlast
    · have hassoc : before ++ x :: after'.concat last = (before ++ x :: after') ++ [last] := by
        simp
      rw [hassoc] at heq
      obtain ⟨hbefore, -⟩ := List.append_inj' heq rfl
      exact hevents before x after' hbefore

/-- All the events that a query asks for are kept just when each was new when it
was appended. -/
theorem filter_firstEvents_eq_iff (events : List StoreEvent) (selected : StoreEvent → Bool) :
    (firstEvents events).filter selected = events.filter selected ↔ Fresh events selected := by
  induction events using List.reverseRecOn with
  | nil => simp [firstEvents, Fresh]
  | append_singleton events e ih =>
    have hany : (firstEvents events).any (fun k => k.eventId = e.eventId) = true ↔
        ∃ d ∈ events, d.eventId = e.eventId := by
      rw [List.any_eq_true, ← mem_ids_firstEvents]
      simp
    have hle := ((firstEvents_sublist events).filter selected).length_le
    rw [fresh_snoc_iff, ← ih, firstEvents_snoc, List.filter_append]
    by_cases hselected : selected e = true
    · have hlast : [e].filter selected = [e] := by simp [hselected]
      rw [hlast]
      by_cases hold : ∃ d ∈ events, d.eventId = e.eventId
      · rw [if_pos (hany.mpr hold)]
        constructor
        · intro heq
          have hlength := congrArg List.length heq
          simp only [List.length_append, List.length_singleton] at hlength
          omega
        · rintro ⟨-, hnew⟩
          obtain ⟨d, hd, hid⟩ := hold
          exact absurd hid (hnew hselected d hd)
      · have hnew : ∀ d ∈ events, d.eventId ≠ e.eventId := fun d hd hid => hold ⟨d, hd, hid⟩
        rw [if_neg (fun h => hold (hany.mp h)), List.filter_append, hlast,
          List.append_left_inj]
        exact ⟨fun h => ⟨h, fun _ => hnew⟩, fun h => h.1⟩
    · have hlast : [e].filter selected = [] := by simp [hselected]
      rw [hlast, List.append_nil]
      split
      · simp [hselected]
      · rw [List.filter_append, hlast, List.append_nil]
        simp [hselected]

/-! ## The checkpoints that are kept -/

theorem mem_of_mem_lastCheckpoints {checkpoints : List Checkpoint} {c : Checkpoint}
    (h : c ∈ lastCheckpoints checkpoints) : c ∈ checkpoints := by
  induction checkpoints using List.reverseRecOn with
  | nil => cases h
  | append_singleton checkpoints last ih =>
    rw [lastCheckpoints_snoc] at h
    rcases List.mem_append.mp h with h | h
    · exact List.mem_append_left _ (ih (List.mem_filter.mp h).1)
    · exact List.mem_append_right _ h

theorem getLast?_filter {α : Type} {l : List α} {p : α → Bool} {a : α} (h : l.getLast? = some a)
    (ha : p a = true) : (l.filter p).getLast? = some a := by
  obtain ⟨front, rfl⟩ := List.getLast?_eq_some_iff.mp h
  simp [ha]

/-- The last checkpoint of a run is its last row, while its id is not taken. A row
of the run with its id is this checkpoint. -/
theorem last_of_run {checkpoints : List Checkpoint} {runId : String} {c : Checkpoint}
    (h : (checkpoints.filter (fun d => d.runId = runId)).getLast? = some c) :
    (c ∈ lastCheckpoints checkpoints →
      ((lastCheckpoints checkpoints).filter (fun d => d.runId = runId)).getLast? = some c) ∧
    ∀ b ∈ lastCheckpoints checkpoints, b.runId = runId → b.checkpointId = c.checkpointId →
      b = c := by
  induction checkpoints using List.reverseRecOn with
  | nil => cases h
  | append_singleton checkpoints last ih =>
    rw [List.filter_append] at h
    rw [lastCheckpoints_snoc, List.filter_append]
    by_cases hlast : last.runId = runId
    · have hone : [last].filter (fun d => decide (d.runId = runId)) = [last] := by simp [hlast]
      rw [hone, List.getLast?_append_cons, List.getLast?_singleton] at h
      cases h
      rw [hone]
      refine ⟨fun _ => List.getLast?_concat, fun b hb _ hid => ?_⟩
      rcases List.mem_append.mp hb with hb | hb
      · have hne := (List.mem_filter.mp hb).2
        simp [hid] at hne
      · exact List.mem_singleton.mp hb
    · have hnone : [last].filter (fun d => decide (d.runId = runId)) = [] := by simp [hlast]
      rw [hnone, List.append_nil] at h
      obtain ⟨hrow, hsame⟩ := ih h
      have hrun : c.runId = runId := by
        have hmem := List.mem_of_getLast? h
        simpa using (List.mem_filter.mp hmem).2
      rw [hnone, List.append_nil]
      refine ⟨fun hmem => ?_, fun b hb hbrun hid => ?_⟩
      · rcases List.mem_append.mp hmem with hmem | hmem
        · obtain ⟨hkept, hne⟩ := List.mem_filter.mp hmem
          have hfilter := getLast?_filter
            (p := fun k => decide (k.checkpointId ≠ last.checkpointId)) (hrow hkept) hne
          rw [List.filter_filter] at hfilter ⊢
          simpa only [Bool.and_comm] using hfilter
        · rw [List.mem_singleton.mp hmem] at hrun
          exact absurd hrun hlast
      · rcases List.mem_append.mp hb with hb | hb
        · exact hsame b (List.mem_filter.mp hb).1 hbrun hid
        · rw [List.mem_singleton.mp hb] at hbrun
          exact absurd hbrun hlast

/-! ## What the stores hold -/

/-- The row of an event that can be serialized. -/
def eventRow (codec : EventCodec) (e : StoreEvent) : EventRow where
  runId := e.runId
  eventId := e.eventId
  eventType := e.eventType.value
  sequence := e.sequence
  timestampIso := e.timestamp
  data := dumps ((codec.eventToDict e).getD .null)

/-- What is read of an event again. -/
def comesBack (codec : EventCodec) (e : StoreEvent) : Option StoreEvent :=
  (codec.eventToDict e).bind codec.dictToEvent

/-- What the in-memory store knows of its runs. -/
def known (events : List StoreEvent) : Dict String RunMeta :=
  events.foldl InMemoryEventStore.trackMeta .empty

/-- The known runs that pass a filter. -/
def listed (log : Log) (status : Option String) : List (String × RunMeta) :=
  InMemoryEventStore.passing ⟨.empty, .empty, known log.events⟩ status

structure MemoryHolds (s : InMemoryEventStore) (log : Log) : Prop where
  events : ∀ runId, (s.events.get? runId).getD [] = log.events.filter (fun e => e.runId = runId)
  checkpoints : ∀ runId, (s.checkpoints.get? runId).getD [] =
    log.checkpoints.filter (fun c => c.runId = runId)
  runs : s.runMeta = known log.events

structure SqliteHolds (codec : EventCodec) (fallback : Fallback) (s : SQLiteEventStore)
    (log : Log) : Prop where
  serialized : ∀ e ∈ log.events, (codec.eventToDict e).isSome = true
  events : s.workflowEvents = (firstEvents log.events).map (eventRow codec)
  checkpoints : s.workflowCheckpoints =
    (lastCheckpoints log.checkpoints).map (SQLiteEventStore.rowOf fallback)
  runs : s.workflowRuns = []

theorem memoryHolds_append {s : InMemoryEventStore} {log : Log} (h : MemoryHolds s log)
    (e : StoreEvent) : MemoryHolds (s.append e) (log.record (.append e)) := by
  refine ⟨fun runId => ?_, h.checkpoints, ?_⟩
  case refine_2 =>
    simp only [InMemoryEventStore.append, Log.record, known, List.foldl_append, h.runs]
    rfl
  have hold := h.events runId
  simp only [InMemoryEventStore.append, Log.record, List.filter_append, Dict.get?_set]
  by_cases hrun : e.runId = runId
  · subst hrun
    simp [hold]
  · simp [hrun, hold]

theorem memoryHolds_saveCheckpoint {s : InMemoryEventStore} {log : Log} (h : MemoryHolds s log)
    (c : Checkpoint) : MemoryHolds (s.saveCheckpoint c) (log.record (.saveCheckpoint c)) := by
  refine ⟨h.events, fun runId => ?_, h.runs⟩
  have hold := h.checkpoints runId
  simp only [InMemoryEventStore.saveCheckpoint, Log.record, List.filter_append, Dict.get?_set]
  by_cases hrun : c.runId = runId
  · subst hrun
    simp [hold]
  · simp [hrun, hold]

section sqlite

variable {codec : EventCodec} {fallback : Fallback} {s : SQLiteEventStore} {log : Log}

theorem sqliteHolds_append (h : SqliteHolds codec fallback s log) {e : StoreEvent}
    (he : (codec.eventToDict e).isSome = true)
    (hfits : SQLiteEventStore.fits64 e.sequence = true) :
    ∃ s', s.append codec e = some s' ∧
      SqliteHolds codec fallback s' (log.record (.append e)) := by
  obtain ⟨j, hj⟩ := Option.isSome_iff_exists.mp he
  have hserialized : ∀ d ∈ log.events ++ [e], (codec.eventToDict d).isSome = true := by
    intro d hd
    rcases List.mem_append.mp hd with hd | hd
    · exact h.serialized d hd
    · rw [List.mem_singleton.mp hd]
      exact he
  have hany : s.workflowEvents.any (fun r => r.eventId = e.eventId) =
      (firstEvents log.events).any (fun k => k.eventId = e.eventId) := by
    rw [h.events, List.any_map]
    rfl
  unfold SQLiteEventStore.append
  rw [hj, hany]
  simp only [hfits, Bool.not_true, Bool.false_eq_true, if_false]
  by_cases hold : (firstEvents log.events).any (fun k => k.eventId = e.eventId) = true
  · simp only [hold, if_true]
    refine ⟨s, rfl, hserialized, ?_, h.checkpoints, h.runs⟩
    simp only [Log.record, firstEvents_snoc, hold, if_true]
    exact h.events
  · simp only [hold]
    refine ⟨_, rfl, hserialized, ?_, h.checkpoints, h.runs⟩
    simp only [Log.record, firstEvents_snoc, hold, h.events]
    simp [eventRow, hj]

theorem sqliteHolds_saveCheckpoint (h : SqliteHolds codec fallback s log) {c : Checkpoint}
    (hfits : SQLiteEventStore.fits64 c.sequenceNumber = true) :
    ∃ s', s.saveCheckpoint fallback c = some s' ∧
      SqliteHolds codec fallback s' (log.record (.saveCheckpoint c)) := by
  unfold SQLiteEventStore.saveCheckpoint
  rw [if_pos hfits]
  refine ⟨_, rfl, h.serialized, h.events, ?_, h.runs⟩
  simp only [Log.record, lastCheckpoints_snoc, h.checkpoints, List.filter_map, List.map_append]
  rfl

/-! ## The events of a run -/

theorem getEvents_memory {m : InMemoryEventStore} (h : MemoryHolds m log) (runId : String)
    (afterSequence : Int) (eventTypes : Option (List EventType)) :
    m.getEvents runId afterSequence eventTypes =
      log.events.filter (asksFor runId afterSequence eventTypes) := by
  unfold InMemoryEventStore.getEvents
  simp only [h.events runId, List.filter_filter]
  split
  · congr 1
    funext e
    simp [asksFor, Bool.and_comm]
  · congr 1
    funext e
    simp [asksFor, Bool.and_comm]
  · rename_i types hnonempty
    congr 1
    funext e
    cases types with
    | nil => exact absurd rfl hnonempty
    | cons t types =>
      simp only [asksFor]
      ac_rfl

theorem loads_eventRow {e : StoreEvent} (he : (codec.eventToDict e).isSome = true) :
    SQLiteEventStore.eventOf codec (eventRow codec e) = comesBack codec e := by
  obtain ⟨j, hj⟩ := Option.isSome_iff_exists.mp he
  simp only [SQLiteEventStore.eventOf, eventRow, comesBack, hj, Option.getD_some,
    loads_dumps (codec.distinct hj), Option.bind_some]

theorem mapM_eventRow {l : List StoreEvent}
    (h : ∀ e ∈ l, (codec.eventToDict e).isSome = true) :
    (l.map (eventRow codec)).mapM (SQLiteEventStore.eventOf codec) = l.mapM (comesBack codec) := by
  induction l with
  | nil => rfl
  | cons e l ih =>
    rw [List.map_cons, List.mapM_cons, List.mapM_cons, loads_eventRow (h e (List.mem_cons_self ..)),
      ih (fun d hd => h d (List.mem_cons_of_mem _ hd))]

def bySequence (a b : StoreEvent) : Bool := a.sequence ≤ b.sequence

theorem contains_value (types : List EventType) (t : EventType) :
    (types.map EventType.value).contains t.value = types.contains t := by
  rw [Bool.eq_iff_iff, List.contains_iff_mem, List.contains_iff_mem]
  constructor
  · intro h
    obtain ⟨u, hu, heq⟩ := List.mem_map.mp h
    exact value_injective heq ▸ hu
  · exact fun h => List.mem_map_of_mem h

theorem selectedRows_eq (h : SqliteHolds codec fallback s log) (runId : String)
    (afterSequence : Int) (eventTypes : Option (List EventType)) :
    s.selectedRows runId afterSequence eventTypes =
      ((firstEvents log.events).filter (asksFor runId afterSequence eventTypes)).map
        (eventRow codec) := by
  unfold SQLiteEventStore.selectedRows
  simp only [h.events]
  split
  · rw [List.filter_map]
    congr 2
    funext e
    simp only [asksFor, Function.comp_apply, Bool.and_true]
    rfl
  · rw [List.filter_map]
    congr 2
    funext e
    simp only [asksFor, Function.comp_apply, Bool.and_true]
    rfl
  · rename_i types hnonempty
    rw [List.filter_filter, List.filter_map]
    congr 2
    funext e
    cases types with
    | nil => exact absurd rfl hnonempty
    | cons t types =>
      have hcontains := contains_value (t :: types) (typeOf e.body)
      simp only [asksFor, eventRow, Function.comp_apply, StoreEvent.eventType, hcontains]
      ac_rfl

theorem getEvents_sqlite (h : SqliteHolds codec fallback s log) (runId : String)
    (afterSequence : Int) (eventTypes : Option (List EventType)) :
    s.getEvents codec runId afterSequence eventTypes =
      if SQLiteEventStore.fits64 afterSequence then
        (((firstEvents log.events).filter (asksFor runId afterSequence eventTypes)).mergeSort
          bySequence).mapM (comesBack codec)
      else none := by
  have hsort := List.map_mergeSort (r := bySequence)
    (s := fun a b : EventRow => decide (a.sequence ≤ b.sequence)) (f := eventRow codec)
    (l := (firstEvents log.events).filter (asksFor runId afterSequence eventTypes))
    (fun a _ b _ => rfl)
  unfold SQLiteEventStore.getEvents SQLiteEventStore.eventRows
  rw [selectedRows_eq h, ← hsort]
  congr 1
  apply mapM_eventRow
  intro e he
  rw [List.mem_mergeSort] at he
  exact h.serialized e ((firstEvents_sublist _).subset (List.mem_filter.mp he).1)

theorem pairwise_bySequence (l : List StoreEvent) :
    (l.mergeSort bySequence).Pairwise (fun a b => a.sequence ≤ b.sequence) := by
  have htrans : ∀ a b c, bySequence a b = true → bySequence b c = true →
      bySequence a c = true := by
    intro a b c hab hbc
    simp only [bySequence, decide_eq_true_eq] at *
    omega
  have htotal : ∀ a b, (bySequence a b || bySequence b a) = true := by
    intro a b
    simp only [bySequence, Bool.or_eq_true, decide_eq_true_eq]
    omega
  exact (List.pairwise_mergeSort htrans htotal l).imp of_decide_eq_true

/-- The events that come back have the ids of their rows. -/
theorem ids_of_mapM {l l' : List StoreEvent} (h : l.mapM (comesBack codec) = some l') :
    l'.map (·.eventId) = l.map (·.eventId) := by
  induction mapM_some_iff.mp h with
  | nil => rfl
  | @cons e e' l l' he hl ih =>
    obtain ⟨j, hj, hback⟩ := Option.bind_eq_some_iff.mp he
    rw [List.map_cons, List.map_cons, codec.keeps_id hj hback, ih (mapM_some_iff.mpr hl)]

theorem mapM_eq_self_iff {l : List StoreEvent} :
    l.mapM (comesBack codec) = some l ↔ ∀ e ∈ l, comesBack codec e = some e := by
  rw [mapM_some_iff, List.forall₂_same]

/-- Two lists of the same ids are the same when an id is that of one event. -/
theorem eq_of_ids {l l' : List StoreEvent}
    (hsame : ∀ a ∈ l', ∀ b ∈ l, a.eventId = b.eventId → a = b)
    (hids : l'.map (·.eventId) = l.map (·.eventId)) : l' = l := by
  induction l' generalizing l with
  | nil =>
    cases l with
    | nil => rfl
    | cons b l => cases hids
  | cons a l' ih =>
    cases l with
    | nil => cases hids
    | cons b l =>
      rw [List.map_cons, List.map_cons, List.cons.injEq] at hids
      have hrest : l' = l := by
        apply ih _ hids.2
        intro c hc d hd hcd
        exact hsame c (List.mem_cons_of_mem _ hc) d (List.mem_cons_of_mem _ hd) hcd
      rw [hsame a (List.mem_cons_self ..) b (List.mem_cons_self ..) hids.1, hrest]

/-- What the query gives on SQLite is what it gives in memory just when its events
were new, come in order and come back as they are. -/
theorem events_agree_iff (events : List StoreEvent) (selected : StoreEvent → Bool) :
    (((firstEvents events).filter selected).mergeSort bySequence).mapM (comesBack codec) =
        some (events.filter selected) ↔
      Fresh events selected ∧
        (events.filter selected).Pairwise (fun a b => a.sequence ≤ b.sequence) ∧
        ∀ e ∈ events.filter selected, comesBack codec e = some e := by
  constructor
  · intro h
    have hids := ids_of_mapM h
    have hperm := List.mergeSort_perm ((firstEvents events).filter selected) bySequence
    have hfresh : (firstEvents events).filter selected = events.filter selected := by
      apply ((firstEvents_sublist events).filter selected).eq_of_length
      have hlength := congrArg List.length hids
      simp only [List.length_map] at hlength
      rw [hlength, hperm.length_eq]
    have hnodup : ((events.filter selected).map (·.eventId)).Nodup := by
      rw [← hfresh]
      exact (firstEvents_nodup events).sublist (List.filter_sublist.map _)
    rw [hfresh] at h hids hperm
    have hsorted : (events.filter selected).mergeSort bySequence = events.filter selected :=
      eq_of_ids (fun a ha b hb => List.inj_on_of_nodup_map hnodup (hperm.subset ha) hb) hids.symm
    rw [hsorted, mapM_eq_self_iff] at h
    refine ⟨(filter_firstEvents_eq_iff events selected).mp hfresh, ?_, h⟩
    rw [← hsorted]
    exact pairwise_bySequence _
  · rintro ⟨hfresh, hsorted, hback⟩
    have hsame : (events.filter selected).mergeSort bySequence = events.filter selected :=
      List.mergeSort_of_pairwise (hsorted.imp decide_eq_true)
    rw [(filter_firstEvents_eq_iff events selected).mpr hfresh, hsame]
    exact mapM_eq_self_iff.mpr hback

/-! ## The latest checkpoint -/

theorem getLatestCheckpoint_memory {m : InMemoryEventStore} (h : MemoryHolds m log)
    (runId : String) :
    m.getLatestCheckpoint runId = (log.checkpoints.filter (fun c => c.runId = runId)).getLast? := by
  unfold InMemoryEventStore.getLatestCheckpoint
  rw [h.checkpoints runId]

theorem latestRow_sqlite (h : SqliteHolds codec fallback s log) (runId : String) :
    s.latestRow runId =
      (latest Checkpoint.sequenceNumber
        ((lastCheckpoints log.checkpoints).filter (fun c => c.runId = runId))).map
        (SQLiteEventStore.rowOf fallback) := by
  unfold SQLiteEventStore.latestRow
  rw [h.checkpoints, List.filter_map]
  exact latest_map (fun _ _ => rfl)

theorem checkpointOf_rowOf_iff (fallback : Fallback) (c : Checkpoint) :
    SQLiteEventStore.checkpointOf (SQLiteEventStore.rowOf fallback c) = some c ↔
      JsonValuedItems c.state.entries ∧ c.metadata = .empty := by
  rw [SQLiteEventStore.checkpointOf_rowOf, ← stateOf_safeSerialize_iff fallback c.state,
    Option.map_eq_some_iff]
  constructor
  · rintro ⟨state, hstate, hc⟩
    have hsame : state = c.state := congrArg Checkpoint.state hc
    have hplain : Dict.empty = c.metadata := congrArg Checkpoint.metadata hc
    exact ⟨hsame ▸ hstate, hplain.symm⟩
  · rintro ⟨hstate, hplain⟩
    exact ⟨c.state, hstate, by rw [← hplain]⟩

/-- The last checkpoint of a run stays, no other row of the run has a greater
number, and it comes back from its row. -/
structure Current (checkpoints : List Checkpoint) (c : Checkpoint) : Prop where
  stays : c ∈ lastCheckpoints checkpoints
  highest : ∀ d ∈ lastCheckpoints checkpoints, d.runId = c.runId →
    d.sequenceNumber ≤ c.sequenceNumber
  json : JsonValuedItems c.state.entries
  plain : c.metadata = .empty

theorem latest_agrees_iff {checkpoints : List Checkpoint} {runId : String} {c : Checkpoint}
    (hlast : (checkpoints.filter (fun d => d.runId = runId)).getLast? = some c) :
    (∃ b, latest Checkpoint.sequenceNumber
        ((lastCheckpoints checkpoints).filter (fun d => d.runId = runId)) = some b ∧
        SQLiteEventStore.checkpointOf (SQLiteEventStore.rowOf fallback b) = some c) ↔
      Current checkpoints c := by
  have hrun : c.runId = runId := by
    have hmem := List.mem_of_getLast? hlast
    exact of_decide_eq_true (List.mem_filter.mp hmem).2
  obtain ⟨hrow, hsame⟩ := last_of_run hlast
  constructor
  · rintro ⟨b, hb, hback⟩
    obtain ⟨hmem, hmax⟩ := latest_spec hb
    obtain ⟨hmem, hbrun⟩ := List.mem_filter.mp hmem
    have hid : b.checkpointId = c.checkpointId := by
      rw [SQLiteEventStore.checkpointOf_rowOf, Option.map_eq_some_iff] at hback
      obtain ⟨state, -, rfl⟩ := hback
      rfl
    have hbc : b = c := hsame b hmem (of_decide_eq_true hbrun) hid
    subst hbc
    obtain ⟨hjson, hplain⟩ := (checkpointOf_rowOf_iff fallback b).mp hback
    refine ⟨hmem, fun d hd hdrun => ?_, hjson, hplain⟩
    apply hmax
    exact List.mem_filter.mpr ⟨hd, decide_eq_true (hdrun.trans hrun)⟩
  · intro h
    obtain ⟨front, hfront⟩ := List.getLast?_eq_some_iff.mp (hrow h.stays)
    refine ⟨c, ?_, (checkpointOf_rowOf_iff fallback c).mpr ⟨h.json, h.plain⟩⟩
    rw [hfront]
    apply (latest_snoc_iff _ _).mpr
    intro b hb
    have hmem : b ∈ (lastCheckpoints checkpoints).filter (fun d => d.runId = runId) := by
      rw [hfront]
      exact List.mem_append_left _ hb
    obtain ⟨hkept, hbrun⟩ := List.mem_filter.mp hmem
    exact h.highest b hkept ((of_decide_eq_true hbrun).trans hrun.symm)

theorem no_checkpoint {checkpoints : List Checkpoint} {runId : String}
    (hlast : (checkpoints.filter (fun d => d.runId = runId)).getLast? = none) :
    (lastCheckpoints checkpoints).filter (fun d => d.runId = runId) = [] := by
  rw [List.getLast?_eq_none_iff, List.filter_eq_nil_iff] at hlast
  rw [List.filter_eq_nil_iff]
  exact fun d hd => hlast d (mem_of_mem_lastCheckpoints hd)

/-! ## The list of runs -/

theorem listRuns_sqlite (h : SqliteHolds codec fallback s log) (limit : Int)
    (status : Option String) :
    s.listRuns limit status = if SQLiteEventStore.fits64 limit then some [] else none := by
  simp [SQLiteEventStore.listRuns, SQLiteEventStore.limited, h.runs]

theorem upTo_eq_nil_iff {α : Type} (limit : Int) (l : List α) :
    upTo limit l = [] ↔ l = [] ∨ limit = 0 ∨ limit < 0 ∧ (l.length : Int) ≤ -limit := by
  unfold upTo
  split
  · rename_i hlimit
    rw [List.take_eq_nil_iff]
    constructor
    · rintro (hzero | hnil)
      · exact .inr (.inl (by omega))
      · exact .inl hnil
    · rintro (hnil | hzero | ⟨hneg, -⟩)
      · exact .inr hnil
      · exact .inl (by omega)
      · omega
  · rename_i hlimit
    rw [List.take_eq_nil_iff]
    constructor
    · rintro (hzero | hnil)
      · exact .inr (.inr ⟨by omega, by omega⟩)
      · exact .inl hnil
    · rintro (hnil | hzero | ⟨-, hshort⟩)
      · exact .inr hnil
      · omega
      · exact .inl (by omega)

theorem listRuns_memory_eq_nil_iff {m : InMemoryEventStore} (h : MemoryHolds m log) (limit : Int)
    (status : Option String) :
    m.listRuns limit status = [] ↔ listed log status = [] ∨ limit = 0 ∨
      limit < 0 ∧ ((listed log status).length : Int) ≤ -limit := by
  have hpassing : m.passing status = listed log status := by
    unfold listed InMemoryEventStore.passing
    rw [h.runs]
  unfold InMemoryEventStore.listRuns
  rw [upTo_eq_nil_iff, hpassing, List.map_eq_nil_iff, List.length_map]

/-! ## The two stores -/

/-- What an operation asks of the log, so that the stores answer it alike. -/
def Meets (codec : EventCodec) (log : Log) : Operation → Prop
  | .append e =>
    (codec.eventToDict e).isSome = true ∧ SQLiteEventStore.fits64 e.sequence = true
  | .saveCheckpoint c => SQLiteEventStore.fits64 c.sequenceNumber = true
  | .getEvents runId afterSequence eventTypes =>
    let wanted := log.events.filter (asksFor runId afterSequence eventTypes)
    SQLiteEventStore.fits64 afterSequence = true ∧
      Fresh log.events (asksFor runId afterSequence eventTypes) ∧
      wanted.Pairwise (fun a b => a.sequence ≤ b.sequence) ∧
      ∀ e ∈ wanted, comesBack codec e = some e
  | .getLatestCheckpoint runId =>
    ∀ c, (log.checkpoints.filter (fun d => d.runId = runId)).getLast? = some c →
      Current log.checkpoints c
  | .listRuns limit status =>
    SQLiteEventStore.fits64 limit = true ∧
      (listed log status = [] ∨ limit = 0 ∨
        limit < 0 ∧ ((listed log status).length : Int) ≤ -limit)

/-- Each operation meets what it asks of the log before it. -/
def AllMeet (codec : EventCodec) : Log → List Operation → Prop
  | _, [] => True
  | log, op :: ops => Meets codec log op ∧ AllMeet codec (log.record op) ops

theorem checkpoint_answer_iff {m : InMemoryEventStore} (hm : MemoryHolds m log)
    (hs : SqliteHolds codec fallback s log) (runId : String) :
    Answer.checkpoint (m.getLatestCheckpoint runId) =
        (s.getLatestCheckpoint runId).elim .raised .checkpoint ↔
      Meets codec log (.getLatestCheckpoint runId) := by
  simp only [Meets, getLatestCheckpoint_memory hm, SQLiteEventStore.getLatestCheckpoint,
    latestRow_sqlite hs]
  rcases hlast : (log.checkpoints.filter (fun d => d.runId = runId)).getLast? with _ | c
  · rw [hlast, no_checkpoint hlast]
    simp [latest]
  · have hagrees := @latest_agrees_iff fallback _ _ _ hlast
    rw [hlast]
    simp only [Option.some.injEq, forall_eq', ← hagrees]
    generalize latest Checkpoint.sequenceNumber _ = found
    rcases found with _ | b
    · simp
    · rcases hback : SQLiteEventStore.checkpointOf (SQLiteEventStore.rowOf fallback b) with _ | d
      · simp [hback]
      · simp [hback, eq_comm]

/-- On the same log the stores answer an operation alike just when it meets what it
asks, and then they hold the same log again. -/
theorem step_agrees_iff {m : InMemoryEventStore} (hm : MemoryHolds m log)
    (hs : SqliteHolds codec fallback s log) (op : Operation) :
    (memoryStep m op).2 = (sqliteStep codec fallback s op).2 ↔ Meets codec log op := by
  cases op with
  | append e =>
    simp only [memoryStep, sqliteStep, Meets]
    by_cases he : (codec.eventToDict e).isSome = true
    · by_cases hfits : SQLiteEventStore.fits64 e.sequence = true
      · obtain ⟨s', hs', -⟩ := sqliteHolds_append hs he hfits
        simp [hs', he, hfits]
      · obtain ⟨j, hj⟩ := Option.isSome_iff_exists.mp he
        simp [SQLiteEventStore.append, hj, hfits]
    · rw [Bool.not_eq_true, Option.isSome_eq_false_iff, Option.isNone_iff_eq_none] at he
      simp [SQLiteEventStore.append, he]
  | saveCheckpoint c =>
    simp only [memoryStep, sqliteStep, Meets, SQLiteEventStore.saveCheckpoint]
    split
    · simp [*]
    · simp [*]
  | getEvents runId afterSequence eventTypes =>
    simp only [memoryStep, sqliteStep, Meets]
    rw [getEvents_memory hm, getEvents_sqlite hs, ← events_agree_iff]
    by_cases hfits : SQLiteEventStore.fits64 afterSequence = true
    · rw [if_pos hfits]
      generalize List.mapM (comesBack codec) _ = found
      rcases found with _ | es
      · simp
      · simp [hfits, eq_comm]
    · simp [hfits]
  | getLatestCheckpoint runId => exact checkpoint_answer_iff hm hs runId
  | listRuns limit status =>
    simp only [memoryStep, sqliteStep, Meets]
    rw [listRuns_sqlite hs, ← listRuns_memory_eq_nil_iff hm limit status]
    by_cases hfits : SQLiteEventStore.fits64 limit = true
    · simp [hfits]
    · simp [hfits]

theorem step_holds {m : InMemoryEventStore} (hm : MemoryHolds m log)
    (hs : SqliteHolds codec fallback s log) {op : Operation} (h : Meets codec log op) :
    MemoryHolds (memoryStep m op).1 (log.record op) ∧
      SqliteHolds codec fallback (sqliteStep codec fallback s op).1 (log.record op) := by
  cases op with
  | append e =>
    obtain ⟨s', hs', hholds⟩ := sqliteHolds_append hs h.1 h.2
    refine ⟨memoryHolds_append hm e, ?_⟩
    simp only [sqliteStep, hs']
    exact hholds
  | saveCheckpoint c =>
    obtain ⟨s', hs', hholds⟩ := sqliteHolds_saveCheckpoint hs h
    refine ⟨memoryHolds_saveCheckpoint hm c, ?_⟩
    simp only [sqliteStep, hs']
    exact hholds
  | getEvents runId afterSequence eventTypes => exact ⟨hm, hs⟩
  | getLatestCheckpoint runId => exact ⟨hm, hs⟩
  | listRuns limit status => exact ⟨hm, hs⟩

theorem answers_agree_iff {m : InMemoryEventStore} (hm : MemoryHolds m log)
    (hs : SqliteHolds codec fallback s log) (ops : List Operation) :
    answers memoryStep m ops = answers (sqliteStep codec fallback) s ops ↔
      AllMeet codec log ops := by
  induction ops generalizing m s log with
  | nil => simp [answers, AllMeet]
  | cons op ops ih =>
    simp only [answers, AllMeet, List.cons.injEq]
    rw [step_agrees_iff hm hs op]
    constructor
    · rintro ⟨hmeets, hrest⟩
      obtain ⟨hm', hs'⟩ := step_holds hm hs hmeets
      exact ⟨hmeets, (ih hm' hs').mp hrest⟩
    · rintro ⟨hmeets, hrest⟩
      obtain ⟨hm', hs'⟩ := step_holds hm hs hmeets
      exact ⟨hmeets, (ih hm' hs').mpr hrest⟩

end sqlite

/-- The stores answer a sequence of operations alike just when each query meets what
it asks of what was written before it. -/
theorem stores_agree_iff (codec : EventCodec) (fallback : Fallback) (ops : List Operation) :
    answers memoryStep .empty ops = answers (sqliteStep codec fallback) .empty ops ↔
      AllMeet codec ⟨[], []⟩ ops := by
  have hm : MemoryHolds .empty ⟨[], []⟩ := ⟨fun _ => rfl, fun _ => rfl, rfl⟩
  have hs : SqliteHolds codec fallback .empty ⟨[], []⟩ := by
    refine ⟨fun e he => ?_, rfl, rfl, rfl⟩
    cases he
  exact answers_agree_iff hm hs ops

/-- The dump of a started run with no initial state, and what is read of it. -/
def startedCodec : EventCodec where
  eventToDict e :=
    match e.body with
    | .executionStarted workflowName ⟨[], _⟩ entryPoint =>
      some (.obj [("event_id", .str e.eventId), ("run_id", .str e.runId),
        ("timestamp", .str e.timestamp), ("sequence", .int e.sequence),
        ("event_type", .str "execution.started"), ("schema_version", .int 1),
        ("workflow_name", .str workflowName), ("initial_state", .obj []),
        ("entry_point", .str entryPoint)])
    | _ => none
  dictToEvent
    | .obj [(_, .str eventId), (_, .str runId), (_, .str timestamp), (_, .int sequence), _, _,
        (_, .str workflowName), _, (_, .str entryPoint)] =>
      some ⟨eventId, runId, timestamp, sequence, .executionStarted workflowName .empty entryPoint⟩
    | _ => none
  distinct := by
    intro e j h
    split at h
    · cases h
      exact ⟨by simp, by simp [DistinctMembers, Json.Distinct]⟩
    · cases h
  keeps_id := by
    intro e j e' h hback
    split at h
    · cases h
      cases hback
      rfl
    · cases h

/-- A run that has only been started, and the question which runs there are. -/
def startedRun : List Operation :=
  [.append ⟨"e1", "r1", "2026-01-01T00:00:00+00:00", 0, .executionStarted "research" .empty "plan"⟩,
    .listRuns 50 none]

/-- The store in memory lists the run, the one on SQLite does not. -/
theorem a_started_run_is_not_listed :
    answers memoryStep .empty startedRun ≠
      answers (sqliteStep startedCodec (fun _ _ => .null)) .empty startedRun := by
  decide +kernel

end orchestra.interchange
