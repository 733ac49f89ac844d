-- What the cost endpoint makes of a window of days (`server/routes/cost.py`): the stored calls, as
-- it reaches them through the listing of the runs, by model, agent, graph or week.
import Orchestra.CostReports
import Orchestra.Interchange
import Orchestra.Lib.Dates
import Orchestra.Lib.Tally

open dates dicts tallies texts orchestra.costs orchestra.cost_reports orchestra.stores
open orchestra.interchange

namespace orchestra.cost_windows

/-! ## The stores -/

/-- What the endpoint asks of an event store, and what has been stored in it. The times are UTC,
and a query gets numbers of 64 bits. -/
structure EventStore where
  stored : List StoreEvent
  time : StoreEvent → DateTime
  runs : List RunSummary
  listRuns : Int → List RunSummary
  getEvents : String → Int → Option (List EventType) → List StoreEvent
  utc : ∀ e ∈ stored, e.timestamp = (time e).isoformat
  distinct : (runs.map (·.runId)).Nodup
  lists : ∀ limit : Nat, SQLiteEventStore.fits64 limit = true → listRuns limit = runs.take limit
  answers : ∀ runId afterSequence eventTypes, SQLiteEventStore.fits64 afterSequence = true →
    (getEvents runId afterSequence eventTypes).Perm
      (stored.filter (asksFor runId afterSequence eventTypes))

namespace EventStore

section memory

variable (s : InMemoryEventStore)

theorem passing_none : s.passing none = s.runMeta.entries :=
  List.filter_eq_self.mpr fun _ _ => rfl

/-- The listing up to a limit is the beginning of the whole one. -/
theorem listRuns_take (limit : Nat) :
    s.listRuns limit none = (s.listRuns s.runMeta.size none).take limit := by
  unfold InMemoryEventStore.listRuns upTo
  rw [if_pos (Int.natCast_nonneg _), if_pos (Int.natCast_nonneg _), Int.toNat_natCast,
    Int.toNat_natCast, passing_none, List.take_take, ← List.map_take, ← List.map_take,
    ← List.take_take, List.take_of_length_le (Nat.le_refl s.runMeta.size)]

theorem runIds_listRuns (limit : Nat) :
    (s.listRuns limit none).map (·.runId) = s.runMeta.keys.take limit := by
  unfold InMemoryEventStore.listRuns upTo
  rw [if_pos (Int.natCast_nonneg _), Int.toNat_natCast, passing_none, List.map_take, List.map_map]
  rfl

theorem nodup_listRuns (limit : Nat) : ((s.listRuns limit none).map (·.runId)).Nodup := by
  rw [runIds_listRuns]
  exact s.runMeta.nodup.sublist (List.take_sublist _ _)

end memory

theorem memoryHolds_appends (events : List StoreEvent) :
    MemoryHolds (events.foldl InMemoryEventStore.append .empty) ⟨events, []⟩ := by
  induction events using List.reverseRecOn with
  | nil => exact ⟨fun _ => rfl, fun _ => rfl, rfl⟩
  | append_singleton events e ih =>
    rw [List.foldl_append]
    exact memoryHolds_append ih e

/-- The store in memory, after these events. -/
def inMemory (events : List StoreEvent) (time : StoreEvent → DateTime)
    (utc : ∀ e ∈ events, e.timestamp = (time e).isoformat) : EventStore :=
  let s := events.foldl InMemoryEventStore.append .empty
  { stored := events
    time
    runs := s.listRuns s.runMeta.size none
    listRuns := fun limit => s.listRuns limit none
    getEvents := s.getEvents
    utc
    distinct := nodup_listRuns s _
    lists := fun limit _ => listRuns_take s limit
    answers := fun runId afterSequence eventTypes _ => List.Perm.of_eq
      (getEvents_memory (memoryHolds_appends events) runId afterSequence eventTypes) }

section sqlite

variable {codec : EventCodec} {fallback : coding.Fallback} {s : SQLiteEventStore} {log : Log}

theorem listRuns_of_fits (t : SQLiteEventStore) {limit : Nat}
    (hfits : SQLiteEventStore.fits64 limit = true) :
    (t.listRuns limit none).getD [] = ((t.listRuns (-1) none).getD []).take limit := by
  unfold SQLiteEventStore.listRuns SQLiteEventStore.limited
  have hall : SQLiteEventStore.fits64 (-1) = true := rfl
  rw [if_pos hfits, if_pos hall, if_pos (Int.natCast_nonneg _), if_neg (by decide),
    Int.toNat_natCast, Option.getD_some, Option.getD_some, List.map_take]

theorem runIds_perm (t : SQLiteEventStore) :
    (((t.listRuns (-1) none).getD []).map (·.runId)).Perm (t.workflowRuns.map (·.runId)) := by
  unfold SQLiteEventStore.listRuns SQLiteEventStore.limited
  have hall : SQLiteEventStore.fits64 (-1) = true := rfl
  rw [if_pos hall, if_neg (by decide), Option.getD_some, List.map_map]
  refine ((List.mergeSort_perm _ _).map _).trans (List.Perm.of_eq ?_)
  rw [List.filter_eq_self.mpr fun _ _ => rfl]
  rfl

/-- The store on SQLite, with these rows in `workflow_runs` and after the events of the log, which
come back as they are. -/
def onSQLite (h : SqliteHolds codec fallback s log) (rows : List RunRow)
    (distinct : (rows.map (·.runId)).Nodup)
    (back : ∀ e ∈ log.events, comesBack codec e = some e) (time : StoreEvent → DateTime)
    (utc : ∀ e ∈ log.events, e.timestamp = (time e).isoformat) : EventStore :=
  let t := { s with workflowRuns := rows }
  { stored := firstEvents log.events
    time
    runs := (t.listRuns (-1) none).getD []
    listRuns := fun limit => (t.listRuns limit none).getD []
    getEvents := fun runId afterSequence eventTypes =>
      (t.getEvents codec runId afterSequence eventTypes).getD []
    utc := fun e he => utc e ((firstEvents_sublist _).subset he)
    distinct := (runIds_perm t).nodup_iff.mpr distinct
    lists := fun limit hfits => listRuns_of_fits t hfits
    answers := by
      intro runId afterSequence eventTypes hfits
      have hanswer := getEvents_sqlite h runId afterSequence eventTypes
      rw [if_pos hfits, mapM_eq_self_iff.mpr] at hanswer
      · change (s.getEvents codec runId afterSequence eventTypes).getD [] |>.Perm _
        rw [hanswer]
        exact List.mergeSort_perm _ _
      · intro e he
        rw [List.mem_mergeSort] at he
        exact back e ((firstEvents_sublist _).subset (List.mem_filter.mp he).1) }

end sqlite

end EventStore

/-! ## The endpoint -/

inductive GroupBy
  | model
  | agent
  | graph
  | week
deriving DecidableEq, Repr

structure CostAggregateEntry extends Breakdown where
  key : String
deriving DecidableEq, Repr

structure CostAggregateResponse where
  fromDate : String
  toDate : String
  groupBy : GroupBy
  entries : List CostAggregateEntry
  total : CostAggregateEntry
deriving DecidableEq, Repr

inductive Failure
  | httpException (statusCode : Nat) (detail : String)
  | raised (error : String)
deriving DecidableEq, Repr

/-- `name or "(unknown)"` -/
def orUnknown (name : String) : String := if name = "" then "(unknown)" else name

/-- `f"{iso_week.year}-W{iso_week.week:02d}"` -/
def weekKey (d : Date) : String :=
  toString d.isocalendar.1 ++ "-W" ++ String.ofList (digits 2 d.isocalendar.2.toNat)

/-- The key of a call. The week is read from the text of its time. -/
def keyOf (groupBy : GroupBy) (run : RunSummary) (ts : String) (call : LLMCalled) :
    Option String :=
  match groupBy with
  | .model => some (orUnknown (call.model.getD ""))
  | .agent => some (orUnknown (call.agentName.getD ""))
  | .graph => some (orUnknown run.workflowName)
  | .week => (Date.fromisoformat (ts.toList.take 10)).map weekKey

/-- The variables of the loop. -/
structure Sums where
  buckets : Dict String Breakdown
  total : Breakdown

def Sums.start : Sums := ⟨.empty, .zero⟩

/-- `buckets[key]` with one more call. A key that is not there gets zeros first. -/
def bucketed (buckets : Dict String Breakdown) (key : String) (cost : Rat) (inp out : Nat) :
    Dict String Breakdown :=
  let buckets := if key ∈ buckets.keys then buckets else buckets.set key .zero
  match buckets.get? key with
  | some b => buckets.set key (b.add cost inp out)
  | none => buckets

/-- One turn of the loop over the events of a run. -/
def turn (registry : ModelCostRegistry) (groupBy : GroupBy) (fromDt toDt : String)
    (run : RunSummary) (s : Sums) (e : StoreEvent) : Option Sums :=
  match (seen e.body).call? with
  | none => some s
  | some call =>
    if e.timestamp < fromDt ∨ toDt ≤ e.timestamp then some s
    else do
      let inp := call.inputTokens.getD 0
      let out := call.outputTokens.getD 0
      let cost := registry.calculateCost (call.model.getD "") inp out
      let key ← keyOf groupBy run e.timestamp call
      some ⟨bucketed s.buckets key cost inp out, s.total.add cost inp out⟩

def turnRun (registry : ModelCostRegistry) (store : EventStore) (groupBy : GroupBy)
    (fromDt toDt : String) (s : Sums) (run : RunSummary) : Option Sums :=
  (store.getEvents run.runId (-1) (some [.llmCalled])).foldlM
    (turn registry groupBy fromDt toDt run) s

/-- The entries, the dearest first. -/
def entriesOf (buckets : Dict String Breakdown) : List CostAggregateEntry :=
  (buckets.entries.mergeSort (fun a b => -a.2.costUsd ≤ -b.2.costUsd)).map fun e =>
    { e.2 with key := e.1 }

def aggregateCost (registry : ModelCostRegistry) (store : EventStore) (fromDate toDate : Date)
    (groupBy : GroupBy) : Except Failure CostAggregateResponse :=
  if toDate < fromDate then .error (.httpException 422 "'from' must be <= 'to'.")
  else if 365 < (toDate.toordinal : Int) - fromDate.toordinal then
    .error (.httpException 422 "Date window must not exceed 365 days.")
  else
    match toDate.next with
    | none => .error (.raised "OverflowError")
    | some after =>
      let storedRuns := store.listRuns 10000
      match storedRuns.foldlM
          (turnRun registry store groupBy fromDate.isoformat after.isoformat) .start with
      | none => .error (.raised "ValueError")
      | some s => .ok {
          fromDate := fromDate.isoformat
          toDate := toDate.isoformat
          groupBy
          entries := entriesOf s.buckets
          total := { s.total with key := "__total__" } }

/-! ## Shares -/

instance : Add Breakdown := ⟨fun a b => ⟨a.costUsd + b.costUsd, a.inputTokens + b.inputTokens,
  a.outputTokens + b.outputTokens, a.callCount + b.callCount⟩⟩

instance : Zero Breakdown := ⟨.zero⟩

theorem breakdown_ext {a b : Breakdown} (hcost : a.costUsd = b.costUsd)
    (hin : a.inputTokens = b.inputTokens) (hout : a.outputTokens = b.outputTokens)
    (hcalls : a.callCount = b.callCount) : a = b := by
  cases a
  cases b
  cases hcost
  cases hin
  cases hout
  cases hcalls
  rfl

instance : AddCommMonoid Breakdown where
  add_assoc a b c := breakdown_ext (add_assoc _ _ _) (add_assoc _ _ _) (add_assoc _ _ _)
    (add_assoc _ _ _)
  zero_add a := breakdown_ext (zero_add _) (zero_add _) (zero_add _) (zero_add _)
  add_zero a := breakdown_ext (add_zero _) (add_zero _) (add_zero _) (add_zero _)
  add_comm a b := breakdown_ext (add_comm _ _) (add_comm _ _) (add_comm _ _) (add_comm _ _)
  nsmul := nsmulRec

theorem add_eq (b : Breakdown) (cost : Rat) (inp out : Nat) :
    b.add cost inp out = b + ⟨cost, inp, out, 1⟩ := rfl

/-- What an event has a share of: its tokens, their price, and one call. -/
def share (registry : ModelCostRegistry) (e : StoreEvent) : Breakdown :=
  match (seen e.body).call? with
  | none => 0
  | some call =>
    let inp := call.inputTokens.getD 0
    let out := call.outputTokens.getD 0
    ⟨registry.calculateCost (call.model.getD "") inp out, inp, out, 1⟩

theorem bucketed_eq_grow (buckets : Dict String Breakdown) (key : String) (cost : Rat)
    (inp out : Nat) : bucketed buckets key cost inp out = grow buckets key ⟨cost, inp, out, 1⟩ := by
  unfold bucketed grow
  by_cases hkey : key ∈ buckets.keys
  · obtain ⟨b, hb⟩ := (Dict.mem_keys_iff _ _).mp hkey
    simp [hkey, hb, add_eq]
  · have hb := (Dict.get?_eq_none_iff _ _).mpr hkey
    simp only [hkey, if_false, Dict.get?_set_self, hb, Option.getD_none, Dict.set_set, add_eq]
    rfl

/-! ## The calls of a window -/

namespace EventStore

/-- A call whose day is in the window. -/
def InWindow (store : EventStore) (fromDate toDate : Date) (e : StoreEvent) : Prop :=
  (seen e.body).call?.isSome = true ∧ fromDate ≤ (store.time e).date ∧ (store.time e).date ≤ toDate

instance (store : EventStore) (fromDate toDate : Date) :
    DecidablePred (store.InWindow fromDate toDate) := fun _ => inferInstanceAs (Decidable (_ ∧ _))

/-- The listing has the run of the event, and the query of the run has the event. -/
def Reached (store : EventStore) (e : StoreEvent) : Prop :=
  e.runId ∈ (store.runs.take 10000).map (·.runId) ∧ -1 < e.sequence

instance (store : EventStore) : DecidablePred store.Reached :=
  fun _ => inferInstanceAs (Decidable (_ ∧ _))

/-- The run of an event, as it is listed. -/
def runOf (store : EventStore) (e : StoreEvent) : Option RunSummary :=
  store.runs.find? (fun run => run.runId = e.runId)

/-- The key that an event of the store counts under. -/
def key (store : EventStore) (groupBy : GroupBy) (e : StoreEvent) : String :=
  let call := ((seen e.body).call?).getD ⟨none, none, none, none⟩
  match groupBy with
  | .model => orUnknown (call.model.getD "")
  | .agent => orUnknown (call.agentName.getD "")
  | .graph => orUnknown (((store.runOf e).map (·.workflowName)).getD "")
  | .week => weekKey (store.time e).date

end EventStore

/-! ## The loop -/

section loop

variable {registry : ModelCostRegistry} {store : EventStore} {fromDate toDate after : Date}
  {groupBy : GroupBy} {r : CostAggregateResponse}

/-- The texts are compared as the days are. -/
theorem in_window_iff {e : StoreEvent} (he : e ∈ store.stored) (hafter : toDate.next = some after) :
    ¬ (e.timestamp < fromDate.isoformat ∨ after.isoformat ≤ e.timestamp) ↔
      fromDate ≤ (store.time e).date ∧ (store.time e).date ≤ toDate := by
  rw [store.utc e he, not_or, not_le, DateTime.isoformat_lt_iff, DateTime.isoformat_lt_iff,
    Date.lt_next_iff hafter, ← Date.le_def]

theorem runOf_eq {run : RunSummary} {e : StoreEvent} (hrun : run ∈ store.runs)
    (hid : e.runId = run.runId) : store.runOf e = some run := by
  obtain ⟨run', hfind⟩ : ∃ run', store.runOf e = some run' := by
    rw [← Option.isSome_iff_exists, EventStore.runOf, List.find?_isSome]
    exact ⟨run, hrun, by simp [hid]⟩
  have hmem := List.mem_of_find?_eq_some hfind
  have hid' : run'.runId = run.runId := by
    have hfound := List.find?_some hfind
    rw [decide_eq_true_eq] at hfound
    exact hfound.trans hid
  rw [hfind, List.inj_on_of_nodup_map store.distinct hmem hrun hid']

/-- The state of the loop when these shares have been counted. -/
def sumsOf (l : List (String × Breakdown)) : Sums := ⟨tally l, (l.map (·.2)).sum⟩

/-- The shares of the events that are in the window. -/
def sharesOf (registry : ModelCostRegistry) (store : EventStore) (groupBy : GroupBy)
    (fromDate toDate : Date) (es : List StoreEvent) : List (String × Breakdown) :=
  (es.filter (store.InWindow fromDate toDate)).map fun e =>
    (store.key groupBy e, share registry e)

theorem turn_eq {run : RunSummary} {e : StoreEvent} (he : e ∈ store.stored)
    (hafter : toDate.next = some after) (hrun : run ∈ store.runs) (hid : e.runId = run.runId)
    (l : List (String × Breakdown)) :
    turn registry groupBy fromDate.isoformat after.isoformat run (sumsOf l) e =
      some (sumsOf (l ++ sharesOf registry store groupBy fromDate toDate [e])) := by
  have hwindow : _ ↔ fromDate ≤ (store.time e).date ∧ _ := in_window_iff he hafter
  unfold turn sharesOf
  cases hcall : (seen e.body).call? with
  | none =>
    have hout : ¬ store.InWindow fromDate toDate e := by
      rintro ⟨hsome, -⟩
      rw [hcall] at hsome
      cases hsome
    simp [hout]
  | some call =>
    by_cases hin : e.timestamp < fromDate.isoformat ∨ after.isoformat ≤ e.timestamp
    · have hout : ¬ store.InWindow fromDate toDate e := fun h => hwindow.mpr h.2 hin
      dsimp only
      rw [if_pos hin]
      simp [hout]
    · have hinside : store.InWindow fromDate toDate e :=
        ⟨by rw [hcall]; rfl, hwindow.mp hin⟩
      have hkey : keyOf groupBy run e.timestamp call = some (store.key groupBy e) := by
        cases groupBy with
        | model => simp [keyOf, EventStore.key, hcall]
        | agent => simp [keyOf, EventStore.key, hcall]
        | graph => simp [keyOf, EventStore.key, runOf_eq hrun hid]
        | week =>
          simp only [keyOf, EventStore.key]
          rw [store.utc e he, DateTime.take_isoformat, Date.fromisoformat_isoformat]
          rfl
      have hshare : share registry e = ⟨registry.calculateCost (call.model.getD "")
          (call.inputTokens.getD 0) (call.outputTokens.getD 0), call.inputTokens.getD 0,
          call.outputTokens.getD 0, 1⟩ := by
        simp [share, hcall]
      simp only [hin, if_false, hkey, Option.bind_eq_bind, Option.bind_some]
      rw [List.filter_cons_of_pos (by simpa using hinside), List.filter_nil, List.map_singleton,
        hshare]
      simp [sumsOf, tally_snoc, bucketed_eq_grow, add_eq]

theorem foldlM_turn {run : RunSummary} (hafter : toDate.next = some after)
    (hrun : run ∈ store.runs) {es : List StoreEvent}
    (hes : ∀ e ∈ es, e ∈ store.stored ∧ e.runId = run.runId) (l : List (String × Breakdown)) :
    es.foldlM (turn registry groupBy fromDate.isoformat after.isoformat run) (sumsOf l) =
      some (sumsOf (l ++ sharesOf registry store groupBy fromDate toDate es)) := by
  induction es generalizing l with
  | nil => simp [sharesOf]
  | cons e es ih =>
    obtain ⟨he, hes⟩ := List.forall_mem_cons.mp hes
    rw [List.foldlM_cons, turn_eq he.1 hafter hrun he.2]
    have hsplit : sharesOf registry store groupBy fromDate toDate (e :: es) =
        sharesOf registry store groupBy fromDate toDate [e] ++
          sharesOf registry store groupBy fromDate toDate es := by
      rw [← List.singleton_append, sharesOf, List.filter_append, List.map_append]
      rfl
    rw [hsplit, ← List.append_assoc]
    exact ih hes _

/-- The events that the endpoint looks at, run by run. -/
def EventStore.found (store : EventStore) (runs : List RunSummary) : List StoreEvent :=
  runs.flatMap fun run => store.getEvents run.runId (-1) (some [.llmCalled])

theorem mem_getEvents {runId : String} {e : StoreEvent} :
    e ∈ store.getEvents runId (-1) (some [.llmCalled]) ↔
      e ∈ store.stored ∧ asksFor runId (-1) (some [.llmCalled]) e = true := by
  rw [(store.answers runId (-1) (some [.llmCalled]) rfl).mem_iff, List.mem_filter]

theorem foldlM_turnRun (hafter : toDate.next = some after) {runs : List RunSummary}
    (hruns : ∀ run ∈ runs, run ∈ store.runs) (l : List (String × Breakdown)) :
    runs.foldlM (turnRun registry store groupBy fromDate.isoformat after.isoformat) (sumsOf l) =
      some (sumsOf (l ++ sharesOf registry store groupBy fromDate toDate (store.found runs))) := by
  induction runs generalizing l with
  | nil => simp [sharesOf, EventStore.found]
  | cons run runs ih =>
    obtain ⟨hrun, hruns⟩ := List.forall_mem_cons.mp hruns
    have hevents : ∀ e ∈ store.getEvents run.runId (-1) (some [.llmCalled]),
        e ∈ store.stored ∧ e.runId = run.runId := by
      intro e he
      obtain ⟨hstored, hasks⟩ := mem_getEvents.mp he
      unfold asksFor at hasks
      simp only [Bool.and_eq_true, decide_eq_true_eq] at hasks
      exact ⟨hstored, hasks.1⟩
    rw [List.foldlM_cons, turnRun, foldlM_turn hafter hrun hevents]
    have hsplit : sharesOf registry store groupBy fromDate toDate (store.found (run :: runs)) =
        sharesOf registry store groupBy fromDate toDate
            (store.getEvents run.runId (-1) (some [.llmCalled])) ++
          sharesOf registry store groupBy fromDate toDate (store.found runs) := by
      rw [EventStore.found, List.flatMap_cons, sharesOf, List.filter_append, List.map_append]
      rfl
    rw [hsplit, ← List.append_assoc]
    exact ih hruns _

/-! ## The answer -/

/-- The answer, when these shares have been counted. -/
def answerOf (fromDate toDate : Date) (groupBy : GroupBy) (l : List (String × Breakdown)) :
    CostAggregateResponse where
  fromDate := fromDate.isoformat
  toDate := toDate.isoformat
  groupBy
  entries := entriesOf (tally l)
  total := { (l.map (·.2)).sum with key := "__total__" }

/-- The shares that the endpoint counts. -/
def counted (registry : ModelCostRegistry) (store : EventStore) (groupBy : GroupBy)
    (fromDate toDate : Date) : List (String × Breakdown) :=
  sharesOf registry store groupBy fromDate toDate (store.found (store.runs.take 10000))

theorem aggregateCost_eq_ok_iff :
    aggregateCost registry store fromDate toDate groupBy = .ok r ↔
      fromDate ≤ toDate ∧ (toDate.toordinal : Int) - fromDate.toordinal ≤ 365 ∧
        toDate.next.isSome = true ∧
        r = answerOf fromDate toDate groupBy (counted registry store groupBy fromDate toDate) := by
  unfold aggregateCost
  by_cases hle : toDate < fromDate
  · rw [if_pos hle]
    exact iff_of_false nofun (fun h => h.1 hle)
  · rw [if_neg hle]
    by_cases hdays : 365 < (toDate.toordinal : Int) - fromDate.toordinal
    · rw [if_pos hdays]
      exact iff_of_false nofun (fun h => absurd h.2.1 (by omega))
    · rw [if_neg hdays]
      cases hafter : toDate.next with
      | none => exact iff_of_false nofun (fun h => nomatch h.2.2.1)
      | some after =>
        have hlisted : store.listRuns 10000 = store.runs.take 10000 := store.lists 10000 rfl
        have hloop : (store.runs.take 10000).foldlM
            (turnRun registry store groupBy fromDate.isoformat after.isoformat) .start =
              some (sumsOf (counted registry store groupBy fromDate toDate)) :=
          foldlM_turnRun hafter (fun run hrun => List.mem_of_mem_take hrun) []
        simp only [hlisted, hloop, Except.ok.injEq]
        constructor
        · rintro rfl
          exact ⟨hle, by omega, rfl, rfl⟩
        · rintro ⟨-, -, -, rfl⟩
          rfl

theorem mem_entriesOf {buckets : Dict String Breakdown} {entry : CostAggregateEntry} :
    entry ∈ entriesOf buckets ↔ buckets.get? entry.key = some entry.toBreakdown := by
  rw [← Dict.mem_entries_iff]
  unfold entriesOf
  simp only [List.mem_map, List.mem_mergeSort]
  constructor
  · rintro ⟨e, he, rfl⟩
    exact he
  · intro h
    exact ⟨_, h, rfl⟩

theorem keys_entriesOf_perm (buckets : Dict String Breakdown) :
    ((entriesOf buckets).map (·.key)).Perm buckets.keys := by
  unfold entriesOf Dict.keys
  rw [List.map_map]
  exact (List.mergeSort_perm _ _).map _

theorem sum_entriesOf (buckets : Dict String Breakdown) :
    ((entriesOf buckets).map (·.toBreakdown)).sum = (buckets.entries.map (·.2)).sum := by
  unfold entriesOf
  rw [List.map_map]
  exact ((List.mergeSort_perm _ _).map _).sum_eq

/-- Each event with `P` counts once: in the entry of its key and in the total. -/
structure CountsOnce (registry : ModelCostRegistry) (store : EventStore) (groupBy : GroupBy)
    (P : StoreEvent → Prop) [DecidablePred P] (r : CostAggregateResponse) : Prop where
  distinct : (r.entries.map (·.key)).Nodup
  covers : ∀ e ∈ store.stored, P e → store.key groupBy e ∈ r.entries.map (·.key)
  sums : ∀ entry ∈ r.entries, entry.toBreakdown =
    ((store.stored.filter (fun e => P e ∧ store.key groupBy e = entry.key)).map
      (share registry)).sum
  adds_up : (r.entries.map (·.toBreakdown)).sum = r.total.toBreakdown
  total : r.total.toBreakdown = ((store.stored.filter P).map (share registry)).sum

theorem countsOnce_answerOf {P : StoreEvent → Prop} [DecidablePred P]
    {l : List (String × Breakdown)} (hl : l.Perm ((store.stored.filter P).map fun e =>
      (store.key groupBy e, share registry e))) :
    CountsOnce registry store groupBy P (answerOf fromDate toDate groupBy l) where
  distinct := (keys_entriesOf_perm (tally l)).nodup_iff.mpr (tally l).nodup
  covers := by
    intro e he hP
    refine (keys_entriesOf_perm (tally l)).mem_iff.mpr ?_
    rw [mem_keys_tally]
    refine ⟨_, hl.mem_iff.mpr (List.mem_map_of_mem (List.mem_filter.mpr ⟨he, ?_⟩)), rfl⟩
    simpa using hP
  sums := by
    intro entry hentry
    have hget := mem_entriesOf.mp hentry
    have hsum := getD_tally l entry.key
    rw [hget, Option.getD_some] at hsum
    rw [hsum, sumOf, ((hl.filter _).map _).sum_eq, List.filter_map, List.map_map,
      List.filter_filter]
    congr 2
    exact List.filter_congr fun e _ => by simp [Bool.and_comm]
  adds_up := by
    rw [answerOf, sum_entriesOf, sum_tally]
  total := by
    change (l.map (·.2)).sum = _
    rw [(hl.map _).sum_eq, List.map_map]
    rfl

theorem eventType_of_call {e : StoreEvent} (h : (seen e.body).call?.isSome = true) :
    e.eventType = .llmCalled := by
  unfold StoreEvent.eventType
  unfold seen at h
  split at h
  · rename_i heq
    rw [heq]
    rfl
  · cases h

theorem found_perm (runs : List RunSummary) (hdistinct : (runs.map (·.runId)).Nodup) :
    (store.found runs).Perm (store.stored.filter fun e =>
      e.runId ∈ runs.map (·.runId) ∧ -1 < e.sequence ∧ e.eventType = .llmCalled) := by
  unfold EventStore.found
  have hanswers : ∀ run ∈ runs, (store.getEvents run.runId (-1) (some [.llmCalled])).Perm
      ((store.stored.filter fun e => -1 < e.sequence ∧ e.eventType = .llmCalled).filter
        fun e => e.runId = run.runId) := by
    intro run _
    refine (store.answers _ _ _ rfl).trans (List.Perm.of_eq ?_)
    rw [List.filter_filter]
    exact List.filter_congr fun e _ => by simp [asksFor]
  refine (List.Perm.flatMap_left runs hanswers).trans ?_
  have hkeys := flatMap_filter_perm (fun e : StoreEvent => e.runId)
    (store.stored.filter fun e => -1 < e.sequence ∧ e.eventType = .llmCalled) hdistinct
  rw [List.flatMap_map, List.filter_filter] at hkeys
  exact hkeys.trans (List.Perm.of_eq (List.filter_congr fun e _ => by simp))

/-- The endpoint counts the calls of the window that it reaches. -/
theorem counted_perm : (counted registry store groupBy fromDate toDate).Perm
    ((store.stored.filter (fun e => store.InWindow fromDate toDate e ∧ store.Reached e)).map
      fun e => (store.key groupBy e, share registry e)) := by
  unfold counted sharesOf
  refine List.Perm.map _ ?_
  have hdistinct : ((store.runs.take 10000).map (·.runId)).Nodup :=
    store.distinct.sublist ((List.take_sublist _ _).map _)
  refine ((found_perm _ hdistinct).filter _).trans (List.Perm.of_eq ?_)
  rw [List.filter_filter]
  refine List.filter_congr fun e _ => ?_
  by_cases hin : store.InWindow fromDate toDate e
  · simp [hin, EventStore.Reached, eventType_of_call hin.1]
  · simp [hin]

theorem total_eq (h : aggregateCost registry store fromDate toDate groupBy = .ok r) :
    r.total.toBreakdown = ((store.stored.filter fun e =>
      store.InWindow fromDate toDate e ∧ store.Reached e).map (share registry)).sum := by
  obtain ⟨-, -, -, rfl⟩ := aggregateCost_eq_ok_iff.mp h
  have honce : CountsOnce registry store groupBy
      (fun e => store.InWindow fromDate toDate e ∧ store.Reached e)
      (answerOf fromDate toDate groupBy (counted registry store groupBy fromDate toDate)) :=
    countsOnce_answerOf counted_perm
  exact honce.total

/-! ## The laws -/

theorem calls_of_sum {l : List StoreEvent} (h : ∀ e ∈ l, (seen e.body).call?.isSome = true) :
    ((l.map (share registry)).sum).callCount = l.length := by
  induction l with
  | nil => rfl
  | cons e l ih =>
    obtain ⟨he, hl⟩ := List.forall_mem_cons.mp h
    obtain ⟨call, hcall⟩ := Option.isSome_iff_exists.mp he
    have hshare : (share registry e).callCount = 1 := by
      simp [share, hcall]
    rw [List.map_cons, List.sum_cons, List.length_cons, ← ih hl, Nat.add_comm, ← hshare]
    rfl

/-- Each event of the window has a share of the total only if all of them are reached. -/
theorem reached_of_total (htotal : ((store.stored.filter fun e =>
        store.InWindow fromDate toDate e ∧ store.Reached e).map (share registry)).sum =
      ((store.stored.filter (store.InWindow fromDate toDate)).map (share registry)).sum)
    {e : StoreEvent} (he : e ∈ store.stored) (hin : store.InWindow fromDate toDate e) :
    store.Reached e := by
  have hcalls := congrArg Breakdown.callCount htotal
  rw [calls_of_sum (by simp only [List.mem_filter, decide_eq_true_eq]; exact fun e h => h.2.1.1),
    calls_of_sum (by simp only [List.mem_filter, decide_eq_true_eq]; exact fun e h => h.2.1)]
    at hcalls
  have hsub : (store.stored.filter fun e =>
      decide (store.InWindow fromDate toDate e ∧ store.Reached e)).Sublist
        (store.stored.filter fun e => decide (store.InWindow fromDate toDate e)) :=
    List.monotone_filter_right _ fun e h => by simp_all
  have hsame := hsub.eq_of_length hcalls
  have hmem : e ∈ store.stored.filter fun e => decide (store.InWindow fromDate toDate e) :=
    List.mem_filter.mpr ⟨he, by simpa using hin⟩
  rw [← hsame, List.mem_filter, decide_eq_true_eq] at hmem
  exact hmem.2.2

/-- The window up to a day and the one from the next day on make the whole window. -/
theorem totals_of_adjacent {middle last : Date} {r₂ r₃ : CostAggregateResponse}
    (hmiddle : toDate.next = some middle)
    (h : aggregateCost registry store fromDate toDate groupBy = .ok r)
    (h₂ : aggregateCost registry store middle last groupBy = .ok r₂)
    (h₃ : aggregateCost registry store fromDate last groupBy = .ok r₃) :
    r₃.total.toBreakdown = r.total.toBreakdown + r₂.total.toBreakdown := by
  have hfirst := (aggregateCost_eq_ok_iff.mp h).1
  have hlast := (aggregateCost_eq_ok_iff.mp h₂).1
  have hnext : ∀ d : Date, middle ≤ d ↔ ¬ d ≤ toDate := fun d => by
    rw [Date.le_def, Date.lt_next_iff hmiddle]
  rw [hnext] at hlast
  rw [total_eq h, total_eq h₂, total_eq h₃, ← List.sum_append, ← List.map_append]
  refine (List.Perm.map _ ?_).sum_eq
  have hsplit := List.filter_append_perm (fun e => decide ((store.time e).date ≤ toDate))
    (store.stored.filter fun e => store.InWindow fromDate last e ∧ store.Reached e)
  rw [List.filter_filter, List.filter_filter] at hsplit
  refine hsplit.symm.trans (List.Perm.of_eq ?_)
  congr 1
  · refine List.filter_congr fun e _ => ?_
    by_cases hbefore : (store.time e).date ≤ toDate
    · have hinside := Date.le_of_not_le hlast hbefore
      simp [EventStore.InWindow, hbefore, hinside]
    · simp [EventStore.InWindow, hbefore]
  · refine List.filter_congr fun e _ => ?_
    by_cases hbefore : (store.time e).date ≤ toDate
    · simp [EventStore.InWindow, hnext, hbefore]
    · have hinside := Date.le_of_not_le hbefore hfirst
      simp [EventStore.InWindow, hnext, hbefore, hinside]

/-- What the endpoint owes a window. -/
def CountedOnce (registry : ModelCostRegistry) (store : EventStore) (fromDate toDate : Date)
    (groupBy : GroupBy) : Prop :=
  ∃ r, aggregateCost registry store fromDate toDate groupBy = .ok r ∧
    CountsOnce registry store groupBy (store.InWindow fromDate toDate) r ∧
    (∀ g, ∃ r', aggregateCost registry store fromDate toDate g = .ok r' ∧ r'.total = r.total) ∧
    ∀ middle last r₂ r₃, toDate.next = some middle →
      aggregateCost registry store middle last groupBy = .ok r₂ →
      aggregateCost registry store fromDate last groupBy = .ok r₃ →
      r₃.total.toBreakdown = r.total.toBreakdown + r₂.total.toBreakdown

/-- The endpoint counts each call of a window once only if it reaches all of them. -/
theorem reached_of_countedOnce (h : CountedOnce registry store fromDate toDate groupBy)
    {e : StoreEvent} (he : e ∈ store.stored) (hin : store.InWindow fromDate toDate e) :
    store.Reached e := by
  obtain ⟨r, hr, honce, -, -⟩ := h
  exact reached_of_total ((total_eq hr).symm.trans honce.total) he hin

/-- The endpoint counts each call of a window once if and only if the window ends before the last
date there is, and each of its calls has a number from 0 on and a run that is among the first
10 000 of the listing. -/
theorem counted_once_iff (registry : ModelCostRegistry) (store : EventStore)
    {fromDate toDate : Date} (hle : fromDate ≤ toDate)
    (hdays : (toDate.toordinal : Int) - fromDate.toordinal ≤ 365) (groupBy : GroupBy) :
    CountedOnce registry store fromDate toDate groupBy ↔
      ¬ (toDate.year = 9999 ∧ toDate.month = 12 ∧ toDate.day = 31) ∧
        ∀ e ∈ store.stored, store.InWindow fromDate toDate e → store.Reached e := by
  rw [← Date.next_eq_none_iff, ← Ne, ← Option.isSome_iff_ne_none]
  constructor
  · intro h
    refine ⟨?_, fun e he hin => reached_of_countedOnce h he hin⟩
    obtain ⟨r, hr, -⟩ := h
    exact (aggregateCost_eq_ok_iff.mp hr).2.2.1
  · rintro ⟨hnext, hreached⟩
    have hok : ∀ g, aggregateCost registry store fromDate toDate g =
        .ok (answerOf fromDate toDate g (counted registry store g fromDate toDate)) :=
      fun g => aggregateCost_eq_ok_iff.mpr ⟨hle, hdays, hnext, rfl⟩
    refine ⟨_, hok groupBy, countsOnce_answerOf (counted_perm.trans (List.Perm.of_eq ?_)),
      fun g => ⟨_, hok g, ?_⟩, fun middle last r₂ r₃ hmiddle h₂ h₃ =>
        totals_of_adjacent hmiddle (hok groupBy) h₂ h₃⟩
    · congr 1
      refine List.filter_congr fun e he => ?_
      by_cases hin : store.InWindow fromDate toDate e
      · simp [hin, hreached e he hin]
      · simp [hin]
    · have htotal := (total_eq (hok g)).trans (total_eq (hok groupBy)).symm
      exact congrArg (fun total : Breakdown =>
        ({ total with key := "__total__" } : CostAggregateEntry)) htotal

end loop

/-! ## Runs -/

/-- Noon of a day in April. -/
def noon : DateTime where
  date := ⟨2026, 4, 1, by decide, by decide, by decide⟩
  hour := 12
  minute := 0
  second := 0
  microsecond := 0
  hour_lt := by decide
  minute_lt := by decide
  second_lt := by decide
  microsecond_lt := by decide

/-- The start of a run at noon. -/
def startOf (runId : String) : StoreEvent :=
  ⟨runId ++ ":0", runId, noon.isoformat, 0, .executionStarted "flow" .empty "writer"⟩

/-- A call of a run at noon. -/
def callOf (runId : String) : StoreEvent :=
  ⟨runId ++ ":1", runId, noon.isoformat, 1,
    .agent "writer" (.llmCalled "writer" "gpt-4" none [] 100 50 0 "stop")⟩

/-- Runs that have started, and a call of one of them. -/
def startedRuns (runIds : List String) (runId : String) : EventStore :=
  .inMemory (runIds.map startOf ++ [callOf runId]) (fun _ => noon) (by
    intro e he
    rcases List.mem_append.mp he with hstart | hcall
    · obtain ⟨_, -, rfl⟩ := List.mem_map.mp hstart
      rfl
    · rw [List.mem_singleton.mp hcall]
      rfl)

theorem keys_known {runIds : List String} (hnodup : runIds.Nodup) (runId : String) :
    (known (runIds.map startOf ++ [callOf runId])).keys = runIds := by
  have hstarts : ∀ ids : List String, ids.Nodup → (known (ids.map startOf)).keys = ids := by
    intro ids
    induction ids using List.reverseRecOn with
    | nil => exact fun _ => rfl
    | append_singleton ids id ih =>
      intro hids
      obtain ⟨hids, -, hnew⟩ := List.nodup_append.mp hids
      have hfresh : id ∉ (known (ids.map startOf)).keys := by
        rw [ih hids]
        exact fun hmem => hnew id hmem id (List.mem_singleton_self id) rfl
      have hknown : known ((ids ++ [id]).map startOf) = (known (ids.map startOf)).set id
          ⟨some "flow", some "running", some noon.isoformat, none⟩ := by
        simp only [known, List.map_append, List.map_singleton, List.foldl_append]
        rfl
      rw [hknown, Dict.keys_set_of_not_mem hfresh, ih hids]
  have hcall : known (runIds.map startOf ++ [callOf runId]) = known (runIds.map startOf) := by
    simp only [known, List.foldl_append]
    rfl
  rw [hcall, hstarts runIds hnodup]

/-- The runs are listed in their order. -/
theorem runIds_startedRuns {runIds : List String} (hnodup : runIds.Nodup) (runId : String) :
    (startedRuns runIds runId).runs.map (·.runId) = runIds := by
  have hmeta := (EventStore.memoryHolds_appends (runIds.map startOf ++ [callOf runId])).runs
  refine (EventStore.runIds_listRuns _ _).trans ?_
  have hall : ∀ d : Dict String RunMeta, d.keys.take d.size = d.keys := fun d =>
    List.take_of_length_le (Nat.le_of_eq (List.length_map _))
  rw [hmeta, hall, keys_known hnodup]

def gpt4Prices : ModelCostRegistry := ⟨.ofList [("gpt-4", ⟨3 / 100000, 6 / 100000⟩)]⟩

/-- A call of the only run counts once. -/
theorem a_call_is_counted :
    CountedOnce gpt4Prices (startedRuns ["a"] "a") noon.date noon.date .model := by
  refine (counted_once_iff gpt4Prices _ (by decide) (by decide) .model).mpr ⟨by decide, ?_⟩
  intro e he _
  have hruns := runIds_startedRuns (List.nodup_singleton "a") "a"
  unfold EventStore.Reached
  rw [List.map_take, hruns]
  change e ∈ [startOf "a", callOf "a"] at he
  simp only [List.mem_cons, List.not_mem_nil, or_false] at he
  rcases he with rfl | rfl
  · exact ⟨List.mem_singleton_self _, by decide⟩
  · exact ⟨List.mem_singleton_self _, by decide⟩

/-- Of 10 001 runs the last one is not in the listing, and its call does not count. -/
theorem the_call_of_the_last_run_is_lost :
    ¬ CountedOnce gpt4Prices (startedRuns ((List.range 10001).map unary) (unary 10000))
      noon.date noon.date .model := by
  intro h
  have hnodup : ((List.range 10001).map unary).Nodup := List.nodup_range.map unary_injective
  have hruns := runIds_startedRuns hnodup (unary 10000)
  have hstored : callOf (unary 10000) ∈
      (startedRuns ((List.range 10001).map unary) (unary 10000)).stored :=
    List.mem_append_right _ (List.mem_singleton_self _)
  have hreached := (reached_of_countedOnce h hstored ⟨rfl, by decide, by decide⟩).1
  rw [List.map_take, hruns, ← List.map_take, List.take_range] at hreached
  change unary 10000 ∈ (List.range (min 10000 10001)).map unary at hreached
  rw [List.mem_map_of_injective unary_injective, List.mem_range] at hreached
  exact absurd hreached (by decide)

end orchestra.cost_windows
