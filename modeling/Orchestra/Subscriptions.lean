-- A live subscription to the events of a run (`subscribe_events` of `postgres.py`).
-- A notification only says that something was appended: its handler looks up the
-- newest event of the run when it gets to run.
import Orchestra.Postgres
import Orchestra.Lib.Machine

open dicts jsons latests machine orchestra.events orchestra.stores orchestra.postgres
open PostgresEventStore (Notice)

namespace orchestra.subscriptions

/-! ## The subscription -/

/-- The handler of a notification: it waits to run, its query is under way, or the
query has its rows. -/
inductive Handler (U : Type)
  | waiting (notice : Notice)
  | asking
  | answered (rows : List (postgres.EventRow U))
deriving DecidableEq

/-- The rows of the run that were committed since the subscription started are kept in
`committed`, and what the callback was called with in `delivered`. -/
structure Subscription (U : Type) where
  store : PostgresEventStore U
  handlers : List (Handler U)
  committed : List (postgres.EventRow U)
  delivered : List StoreEvent

inductive Action
  | append (startedAt : String) (e : StoreEvent)
  | start
  | answer
  | deliver

section

variable {U : Type} [DecidableEq U]

/-- A row of the run of the subscription. -/
def ofRun (db : Database U) (runId : String) (r : postgres.EventRow U) : Bool :=
  db.uuid runId = some r.runId

/-- `ORDER BY sequence DESC LIMIT 1` -/
def newestRow (db : Database U) (runId : String) (store : PostgresEventStore U) :
    Option (postgres.EventRow U) :=
  latest postgres.EventRow.sequence (store.workflowEvents.filter (ofRun db runId))

omit [DecidableEq U] in
/-- `dict_to_event` of the data of a row, which the driver gives as a text. -/
def eventOf (codec : EventCodec) (r : postgres.EventRow U) : Option StoreEvent :=
  (loads r.data).bind codec.dictToEvent

/-- The rows of the run that an append has inserted. -/
def inserted (db : Database U) (runId : String) (old new : PostgresEventStore U) :
    List (postgres.EventRow U) :=
  (new.workflowEvents.drop old.workflowEvents.length).filter (ofRun db runId)

/-- Any writer appends, and any handler takes its next step. The connection of the
subscription runs one query at a time and refuses another. -/
inductive Step (codec : EventCodec) (db : Database U) (runId : String) :
    Subscription U → Action → Subscription U → Prop
  | appended {s : Subscription U} {startedAt : String} {e : StoreEvent}
      {store : PostgresEventStore U} {notice : Notice}
      (append : s.store.append codec db startedAt e = some (store, notice)) :
      Step codec db runId s (.append startedAt e) {
        store
        handlers := s.handlers ++ [.waiting notice]
        committed := s.committed ++ inserted db runId s.store store
        delivered := s.delivered }
  | rolledBack {s : Subscription U} {startedAt : String} {e : StoreEvent}
      (append : s.store.append codec db startedAt e = none) :
      Step codec db runId s (.append startedAt e) s
  | ignores {s : Subscription U} {earlier later : List (Handler U)} {notice : Notice}
      (handlers : s.handlers = earlier ++ .waiting notice :: later)
      (other : notice.runId ≠ runId) :
      Step codec db runId s .start { s with handlers := earlier ++ later }
  | asks {s : Subscription U} {earlier later : List (Handler U)} {notice : Notice}
      (handlers : s.handlers = earlier ++ .waiting notice :: later) (same : notice.runId = runId)
      (free : .asking ∉ earlier ++ later) :
      Step codec db runId s .start { s with handlers := earlier ++ .asking :: later }
  | refused {s : Subscription U} {earlier later : List (Handler U)} {notice : Notice}
      (handlers : s.handlers = earlier ++ .waiting notice :: later) (same : notice.runId = runId)
      (busy : .asking ∈ earlier ++ later) :
      Step codec db runId s .start { s with handlers := earlier ++ later }
  | answers {s : Subscription U} {earlier later : List (Handler U)}
      (handlers : s.handlers = earlier ++ .asking :: later) :
      Step codec db runId s .answer { s with
        handlers := earlier ++ .answered (newestRow db runId s.store).toList :: later }
  | delivers {s : Subscription U} {earlier later : List (Handler U)}
      {rows : List (postgres.EventRow U)}
      (handlers : s.handlers = earlier ++ .answered rows :: later) :
      Step codec db runId s .deliver { s with
        handlers := earlier ++ later
        delivered := s.delivered ++ rows.filterMap (eventOf codec) }

/-- The subscription starts on a store with any rows. -/
def subscription (codec : EventCodec) (db : Database U) (runId : String) :
    Machine (Subscription U) Action where
  init s := s.handlers = [] ∧ s.committed = [] ∧ s.delivered = []
  step := Step codec db runId

/-! ## Exactly once -/

omit [DecidableEq U] in
/-- The callback gets a first part of the committed events, each once and in their
order, and has got all of them when every handler has run. -/
structure ExactlyOnce (codec : EventCodec) (s : Subscription U) : Prop where
  inOrder : s.delivered.map some <+: s.committed.map (eventOf codec)
  complete : s.handlers = [] → s.delivered.map some = s.committed.map (eventOf codec)

/-! ## The condition -/

omit [DecidableEq U] in
/-- The handler has to do with the run. -/
def Handler.isOfRun (runId : String) : Handler U → Bool
  | .waiting notice => notice.runId = runId
  | .asking | .answered _ => true

omit [DecidableEq U] in
/-- What is read of the event once it is in the table. -/
def readBack (codec : EventCodec) (db : Database U) (e : StoreEvent) : Option StoreEvent := do
  let payload ← codec.eventToDict e
  let data ← db.jsonb (dumps payload)
  (loads data).bind codec.dictToEvent

omit [DecidableEq U] in
/-- No event of the run is appended again. A new one is announced under the id that
the subscriber knows the run by, comes when no handler of the run is under way, has
a greater number than the events before it, and can be read back. -/
structure AppendAllowed (codec : EventCodec) (db : Database U) (runId : String)
    (s : Subscription U) (e : StoreEvent) : Prop where
  again : (∃ r ∈ s.store.workflowEvents, db.uuid e.eventId = some r.eventId) → e.runId ≠ runId
  new : (∀ r ∈ s.store.workflowEvents, db.uuid e.eventId ≠ some r.eventId) →
    (db.uuid e.runId).isSome = true → db.uuid e.runId = db.uuid runId →
    (∀ r ∈ s.store.workflowEvents, db.uuid runId = some r.runId → r.sequence ≠ e.sequence) →
    e.runId = runId ∧ (∀ h ∈ s.handlers, h.isOfRun runId = false) ∧
      (∀ r ∈ s.store.workflowEvents, db.uuid runId = some r.runId → r.sequence ≤ e.sequence) ∧
      (readBack codec db e).isSome = true

omit [DecidableEq U] in
def Allowed (codec : EventCodec) (db : Database U) (runId : String) (s : Subscription U) :
    Action → Prop
  | .append _ e => AppendAllowed codec db runId s e
  | _ => True

/-! ## What a step does -/

/-- An append announces the run under the id of the event. It inserts nothing when the
id of the event is there, and else a row with a number that is new in the run. -/
theorem append_cases {codec : EventCodec} {db : Database U} {startedAt : String}
    {old new : PostgresEventStore U} {e : StoreEvent} {notice : Notice}
    (h : old.append codec db startedAt e = some (new, notice)) :
    notice.runId = e.runId ∧
      ((∃ r ∈ old.workflowEvents, db.uuid e.eventId = some r.eventId) ∧
          new.workflowEvents = old.workflowEvents ∨
        (∀ r ∈ old.workflowEvents, db.uuid e.eventId ≠ some r.eventId) ∧
          ∃ row : postgres.EventRow U, db.uuid e.runId = some row.runId ∧
            row.sequence = e.sequence ∧ eventOf codec row = readBack codec db e ∧
            (∀ r ∈ old.workflowEvents, r.runId = row.runId → r.sequence ≠ e.sequence) ∧
            new.workflowEvents = old.workflowEvents ++ [row]) := by
  unfold PostgresEventStore.append at h
  obtain ⟨payload, hpayload, h⟩ := Option.bind_eq_some_iff.mp h
  obtain ⟨run, hrun, h⟩ := Option.bind_eq_some_iff.mp h
  obtain ⟨id, hid, h⟩ := Option.bind_eq_some_iff.mp h
  obtain ⟨data, hdata, h⟩ := Option.bind_eq_some_iff.mp h
  split at h
  · cases h
  split at h
  · rename_i hold
    cases h
    obtain ⟨r, hr, hrid⟩ := List.any_eq_true.mp hold
    exact ⟨rfl, .inl ⟨⟨r, hr, hid.trans (congrArg some (of_decide_eq_true hrid).symm)⟩, rfl⟩⟩
  rename_i hnew
  split at h
  · cases h
  rename_i hnumber
  cases h
  refine ⟨rfl, .inr ⟨fun r hr hrid => ?_, _, hrun, rfl, ?_, fun r hr hrrun hsame => ?_, rfl⟩⟩
  · apply hnew
    refine List.any_eq_true.mpr ⟨r, hr, decide_eq_true ?_⟩
    exact (Option.some.inj (hid.symm.trans hrid)).symm
  · simp only [eventOf, readBack, hpayload, hdata, Option.bind_eq_bind, Option.bind_some]
  · apply hnumber
    refine List.any_eq_true.mpr ⟨r, hr, ?_⟩
    simp only at hrrun
    simp [hrrun, hsame]

/-! ## The invariant -/

section invariant

variable {codec : EventCodec} {db : Database U} {runId : String} {s t : Subscription U}

omit [DecidableEq U] in
def underWay (runId : String) (handlers : List (Handler U)) : List (Handler U) :=
  handlers.filter (Handler.isOfRun runId)

/-- No handler of the run is under way, and all committed events are delivered, or one
is, and it is to deliver the last of them, which is the newest in the table. -/
inductive Steady (codec : EventCodec) (db : Database U) (runId : String) (s : Subscription U) :
    Prop
  | idle (handlers : underWay runId s.handlers = [])
      (delivered : s.delivered.map some = s.committed.map (eventOf codec))
  | pending {h : Handler U} {front : List (postgres.EventRow U)} {row : postgres.EventRow U}
      {event : StoreEvent} (handlers : underWay runId s.handlers = [h])
      (committed : s.committed = front ++ [row])
      (delivered : s.delivered.map some = front.map (eventOf codec))
      (newest : newestRow db runId s.store = some row) (event : eventOf codec row = some event)
      (rows : ∀ rows, h = .answered rows → rows = [row])

omit [DecidableEq U] in
theorem underWay_skip {earlier later : List (Handler U)} {h : Handler U}
    (hother : h.isOfRun runId = false) :
    underWay runId (earlier ++ h :: later) = underWay runId (earlier ++ later) := by
  simp [underWay, hother]

omit [DecidableEq U] in
/-- A handler of the run that is the only one. -/
theorem underWay_alone {earlier later : List (Handler U)} {h h' : Handler U}
    (hof : h.isOfRun runId = true) (halone : underWay runId (earlier ++ h :: later) = [h']) :
    h = h' ∧ underWay runId earlier = [] ∧ underWay runId later = [] := by
  unfold underWay at *
  rw [List.filter_append, List.filter_cons_of_pos hof] at halone
  rcases hearlier : earlier.filter (Handler.isOfRun runId) with _ | ⟨a, rest⟩
  · rw [hearlier, List.nil_append, List.cons.injEq] at halone
    exact ⟨halone.1, rfl, halone.2⟩
  · rw [hearlier] at halone
    have hlength := congrArg List.length halone
    simp at hlength

omit [DecidableEq U] in
theorem underWay_ne_nil {earlier later : List (Handler U)} {h : Handler U}
    (hof : h.isOfRun runId = true) : underWay runId (earlier ++ h :: later) ≠ [] := by
  simp [underWay, hof]

omit [DecidableEq U] in
theorem underWay_put {earlier later : List (Handler U)} {h : Handler U}
    (hof : h.isOfRun runId = true) (hearlier : underWay runId earlier = [])
    (hlater : underWay runId later = []) : underWay runId (earlier ++ h :: later) = [h] := by
  unfold underWay at *
  rw [List.filter_append, List.filter_cons_of_pos hof, hearlier, hlater, List.nil_append]

/-- Nothing that has to do with the run changes. -/
theorem Steady.same (h : Steady codec db runId s)
    (hhandlers : underWay runId t.handlers = underWay runId s.handlers)
    (hcommitted : t.committed = s.committed) (hdelivered : t.delivered = s.delivered)
    (hnewest : newestRow db runId t.store = newestRow db runId s.store) :
    Steady codec db runId t := by
  cases h with
  | idle handlers delivered =>
    refine .idle (hhandlers.trans handlers) ?_
    rw [hdelivered, hcommitted]
    exact delivered
  | pending handlers committed delivered newest event rows =>
    refine .pending (hhandlers.trans handlers) (hcommitted.trans committed) ?_
      (hnewest.trans newest) event rows
    rw [hdelivered]
    exact delivered

theorem Steady.append {startedAt : String} {e : StoreEvent} {store : PostgresEventStore U}
    {notice : Notice} (h : Steady codec db runId s) (hallowed : AppendAllowed codec db runId s e)
    (happend : s.store.append codec db startedAt e = some (store, notice)) :
    Steady codec db runId ⟨store, s.handlers ++ [.waiting notice],
      s.committed ++ inserted db runId s.store store, s.delivered⟩ := by
  obtain ⟨hnotice, hcases⟩ := append_cases happend
  have hskip (hother : e.runId ≠ runId) :
      underWay runId (s.handlers ++ [.waiting notice]) = underWay runId s.handlers := by
    rw [underWay_skip, List.append_nil]
    simp [Handler.isOfRun, hnotice, hother]
  rcases hcases with ⟨hthere, hsame⟩ | ⟨hnew, row, hrun, hnumber, hback, hfree, hrows⟩
  · refine h.same (hskip (hallowed.again hthere)) ?_ rfl ?_
    · simp [inserted, hsame]
    · simp only [newestRow, hsame]
  · have hinserted : inserted db runId s.store store = [row].filter (ofRun db runId) := by
      rw [inserted, hrows, List.drop_left]
    by_cases hof : db.uuid e.runId = db.uuid runId
    · -- the row is of the run: every handler of the run before it is done
      have hrow : db.uuid runId = some row.runId := hof.symm.trans hrun
      have hnumbers : ∀ r ∈ s.store.workflowEvents, db.uuid runId = some r.runId →
          r.sequence ≠ e.sequence := by
        intro r hr hrrun
        rw [← hnumber, hnumber]
        exact hfree r hr (Option.some.inj (hrrun.symm.trans hrow))
      obtain ⟨hid, hdone, hgreatest, hreadable⟩ :=
        hallowed.new hnew (by rw [hrun]; rfl) hof hnumbers
      have hnone : underWay runId s.handlers = [] := by
        unfold underWay
        rw [List.filter_eq_nil_iff]
        intro h hh hofRun
        rw [hdone h hh] at hofRun
        cases hofRun
      obtain ⟨event, hevent⟩ := Option.isSome_iff_exists.mp hreadable
      have hdelivered : s.delivered.map some = s.committed.map (eventOf codec) := by
        cases h with
        | idle handlers delivered => exact delivered
        | pending handlers =>
          rw [hnone] at handlers
          cases handlers
      have hput : underWay runId (s.handlers ++ [.waiting notice]) = [.waiting notice] := by
        apply underWay_put _ hnone rfl
        simp [Handler.isOfRun, hnotice, hid]
      have hcommitted : s.committed ++ inserted db runId s.store store = s.committed ++ [row] := by
        rw [hinserted]
        simp [ofRun, hrow]
      have hnewest : newestRow db runId store = some row := by
        have hone : [row].filter (ofRun db runId) = [row] := by simp [ofRun, hrow]
        unfold newestRow
        rw [hrows, List.filter_append, hone, latest_snoc_iff]
        intro r hr
        obtain ⟨hmem, hrrun⟩ := List.mem_filter.mp hr
        rw [hnumber]
        exact hgreatest r hmem (of_decide_eq_true hrrun)
      exact .pending hput hcommitted hdelivered hnewest (hback.trans hevent)
        (fun rows hrows => nomatch hrows)
    · have hrow : [row].filter (ofRun db runId) = [] := by
        have hne : db.uuid runId ≠ some row.runId := fun heq => hof (hrun.trans heq.symm)
        simp [ofRun, hne]
      have hother : e.runId ≠ runId := fun heq => hof (congrArg db.uuid heq)
      refine h.same (hskip hother) ?_ rfl ?_
      · rw [hinserted, hrow, List.append_nil]
      · unfold newestRow
        rw [hrows, List.filter_append, hrow, List.append_nil]

/-- A handler of the run is the only one, and it is to deliver the last committed
event. -/
theorem Steady.only {earlier later : List (Handler U)} {h : Handler U}
    (hsteady : Steady codec db runId s) (hhandlers : s.handlers = earlier ++ h :: later)
    (hof : h.isOfRun runId = true) :
    underWay runId earlier = [] ∧ underWay runId later = [] ∧
      ∃ front row event, s.committed = front ++ [row] ∧
        s.delivered.map some = front.map (eventOf codec) ∧
        newestRow db runId s.store = some row ∧ eventOf codec row = some event ∧
        ∀ rows, h = .answered rows → rows = [row] := by
  cases hsteady with
  | idle handlers =>
    rw [hhandlers] at handlers
    exact absurd handlers (underWay_ne_nil hof)
  | pending handlers committed delivered newest event rows =>
    rw [hhandlers] at handlers
    obtain ⟨rfl, hearlier, hlater⟩ := underWay_alone hof handlers
    exact ⟨hearlier, hlater, _, _, _, committed, delivered, newest, event, rows⟩

/-- Every step whose append is allowed keeps the invariant. -/
theorem Steady.step {a : Action} (h : Steady codec db runId s)
    (hstep : Step codec db runId s a t) (hallowed : Allowed codec db runId s a) :
    Steady codec db runId t := by
  cases hstep with
  | appended happend => exact h.append hallowed happend
  | rolledBack _ => exact h
  | ignores hhandlers hother =>
    refine h.same ?_ rfl rfl rfl
    rw [hhandlers, underWay_skip]
    simp [Handler.isOfRun, hother]
  | asks hhandlers hsame _ =>
    have hof : (Handler.waiting _ : Handler U).isOfRun runId = true := decide_eq_true hsame
    obtain ⟨hearlier, hlater, front, row, event, hcommitted, hdelivered, hnewest, hevent, -⟩ :=
      h.only hhandlers hof
    have hput := underWay_put (h := .asking) rfl hearlier hlater
    exact .pending hput hcommitted hdelivered hnewest hevent (fun rows hrows => nomatch hrows)
  | refused hhandlers hsame hbusy =>
    have hof : (Handler.waiting _ : Handler U).isOfRun runId = true := decide_eq_true hsame
    obtain ⟨hearlier, hlater, -⟩ := h.only hhandlers hof
    unfold underWay at hearlier hlater
    rw [List.filter_eq_nil_iff] at hearlier hlater
    rcases List.mem_append.mp hbusy with hbusy | hbusy
    · exact absurd rfl (hearlier _ hbusy)
    · exact absurd rfl (hlater _ hbusy)
  | answers hhandlers =>
    obtain ⟨hearlier, hlater, front, row, event, hcommitted, hdelivered, hnewest, hevent, -⟩ :=
      h.only hhandlers rfl
    refine .pending (underWay_put rfl hearlier hlater) hcommitted hdelivered hnewest hevent ?_
    intro rows hrows
    rw [hnewest] at hrows
    cases hrows
    rfl
  | delivers hhandlers =>
    obtain ⟨hearlier, hlater, front, row, event, hcommitted, hdelivered, -, hevent, hrows⟩ :=
      h.only hhandlers rfl
    rw [hrows _ rfl]
    apply Steady.idle
    · unfold underWay at *
      rw [List.filter_append, hearlier, hlater, List.append_nil]
    · simp [hcommitted, hdelivered, hevent]

theorem Steady.exactlyOnce (h : Steady codec db runId s) : ExactlyOnce codec s := by
  cases h with
  | idle handlers delivered =>
    exact ⟨by simp [delivered], fun _ => delivered⟩
  | pending handlers committed delivered =>
    constructor
    · rw [delivered, committed, List.map_append]
      exact List.prefix_append _ _
    · intro hnone
      rw [hnone] at handlers
      cases handlers

end invariant

/-- In every run in which the events of the run are appended one at a time, each when
the handlers are done with the one before, the subscription delivers exactly once. -/
theorem delivers_exactly_once (codec : EventCodec) (db : Database U) (runId : String)
    {s : Subscription U}
    (h : Reachable ((subscription codec db runId).restrict (Allowed codec db runId)) s) :
    ExactlyOnce codec s := by
  have hsteady : Steady codec db runId s := by
    refine h.invariant (fun s hinit => ?_) (fun s a t hs hstep => hs.step hstep.1 hstep.2)
    obtain ⟨hhandlers, hcommitted, hdelivered⟩ := hinit
    apply Steady.idle
    · rw [hhandlers]
      rfl
    · rw [hcommitted, hdelivered]
      rfl
  exact hsteady.exactlyOnce

/-- A handler that runs at once delivers the newest event. -/
theorem handled {codec : EventCodec} {db : Database U} {runId : String} {s : Subscription U}
    {notice : Notice} {later : List (Handler U)} {row : postgres.EventRow U} {event : StoreEvent}
    (hhandlers : s.handlers = .waiting notice :: later) (hsame : notice.runId = runId)
    (hfree : .asking ∉ later) (hnewest : newestRow db runId s.store = some row)
    (hevent : eventOf codec row = some event) :
    Run ((subscription codec db runId).restrict (Allowed codec db runId)) s
      [.start, .answer, .deliver]
      ⟨s.store, later, s.committed, s.delivered ++ [event]⟩ := by
  have hfirst : s.handlers = [] ++ .waiting notice :: later := hhandlers
  have hstart : Step codec db runId s .start
      ⟨s.store, .asking :: later, s.committed, s.delivered⟩ :=
    .asks hfirst hsame hfree
  have hanswer : Step codec db runId ⟨s.store, .asking :: later, s.committed, s.delivered⟩ .answer
      ⟨s.store, .answered [row] :: later, s.committed, s.delivered⟩ := by
    have hstep := @Step.answers U _ codec db runId
      ⟨s.store, .asking :: later, s.committed, s.delivered⟩ [] later rfl
    rw [hnewest] at hstep
    exact hstep
  have hdeliver : Step codec db runId
      ⟨s.store, .answered [row] :: later, s.committed, s.delivered⟩ .deliver
      ⟨s.store, later, s.committed, s.delivered ++ [event]⟩ := by
    have hstep := @Step.delivers U _ codec db runId
      ⟨s.store, .answered [row] :: later, s.committed, s.delivered⟩ [] later [row] rfl
    simp only [List.filterMap_cons, hevent, List.filterMap_nil] at hstep
    exact hstep
  exact .step ⟨hstart, trivial⟩ (.step ⟨hanswer, trivial⟩ (.step ⟨hdeliver, trivial⟩ (.stay _)))

end

/-! ## Two nodes start -/

def textOf (members : List (String × Json)) (key : String) : Option String :=
  match members.lookup key with
  | some (.str s) => some s
  | _ => none

/-- The dump of the start of a node, and what is read of it. -/
def nodeCodec : EventCodec where
  eventToDict e :=
    match e.body with
    | .nodeStarted nodeId nodeType =>
      some (.obj [("event_id", .str e.eventId), ("run_id", .str e.runId),
        ("timestamp", .str e.timestamp), ("sequence", .int e.sequence),
        ("event_type", .str "node.started"), ("schema_version", .int 1),
        ("node_id", .str nodeId), ("node_type", .str nodeType)])
    | _ => none
  dictToEvent
    | .obj members => do
      let eventId ← textOf members "event_id"
      let runId ← textOf members "run_id"
      let timestamp ← textOf members "timestamp"
      let nodeId ← textOf members "node_id"
      let nodeType ← textOf members "node_type"
      match members.lookup "sequence" with
      | some (.int sequence) =>
        some ⟨eventId, runId, timestamp, sequence, .nodeStarted nodeId nodeType⟩
      | _ => none
    | _ => none
  distinct := by
    intro e j h
    split at h
    · cases h
      exact ⟨by simp, by simp [DistinctMembers, Json.Distinct]⟩
    · cases h
  keeps_id := by
    intro e j e' h hback
    split at h
    · cases h
      cases hback
      rfl
    · cases h

/-- The payload of the event that a node starts. -/
def payload (e : StoreEvent) : Json := (nodeCodec.eventToDict e).getD .null

/-- The row of the event. -/
def nodeRow (e : StoreEvent) : postgres.EventRow String :=
  ⟨e.runId, e.eventId, e.eventType.value, e.sequence, e.timestamp, dumps (sorted (payload e))⟩

theorem dictToEvent_sorted {j : Json} (h : j.Distinct) :
    nodeCodec.dictToEvent (sorted j) = nodeCodec.dictToEvent j := by
  cases j with
  | obj members =>
    have hlookup := lookup_perm (List.perm_insertionSort keyBefore members) h.1
    simp only [nodeCodec, sorted, textOf, hlookup]
  | _ => rfl

def runId : String := "7f0c2d1e-5a3b-4c6d-8e9f-0a1b2c3d4e5f"

/-- The start of the node `nodeId`, as the event with the number `sequence`. -/
def nodeStarted (eventId nodeId : String) (sequence : Int) : StoreEvent :=
  ⟨eventId, runId, "2026-01-01T00:00:00Z", sequence, .nodeStarted nodeId "AgentNode"⟩

section

variable (eventId nodeId : String) (sequence : Int)

theorem eventToDict_nodeStarted : nodeCodec.eventToDict (nodeStarted eventId nodeId sequence) =
    some (payload (nodeStarted eventId nodeId sequence)) :=
  rfl

theorem distinct_payload : (payload (nodeStarted eventId nodeId sequence)).Distinct :=
  nodeCodec.distinct (eventToDict_nodeStarted eventId nodeId sequence)

theorem jsonb_payload : textDatabase.jsonb (dumps (payload (nodeStarted eventId nodeId sequence))) =
    some (nodeRow (nodeStarted eventId nodeId sequence)).data := by
  simp only [textDatabase, loads_dumps (distinct_payload eventId nodeId sequence), nodeRow,
    Option.map_some]

theorem eventOf_nodeRow : eventOf nodeCodec (nodeRow (nodeStarted eventId nodeId sequence)) =
    some (nodeStarted eventId nodeId sequence) := by
  have hdistinct := distinct_payload eventId nodeId sequence
  simp only [eventOf, nodeRow, loads_dumps (distinct_sorted hdistinct), Option.bind_some,
    dictToEvent_sorted hdistinct]
  rfl

theorem readBack_nodeStarted :
    readBack nodeCodec textDatabase (nodeStarted eventId nodeId sequence) =
      some (nodeStarted eventId nodeId sequence) := by
  simp only [readBack, eventToDict_nodeStarted, jsonb_payload, Option.bind_eq_bind,
    Option.bind_some]
  exact eventOf_nodeRow eventId nodeId sequence

/-- A new event is appended as its row. -/
theorem append_nodeStarted {startedAt : String} {s : PostgresEventStore String}
    (hfits : fits32 sequence = true)
    (hnew : s.workflowEvents.any (fun r => r.eventId = eventId) = false)
    (hnumber : s.workflowEvents.any (fun r => r.runId = runId && r.sequence = sequence) = false) :
    s.append nodeCodec textDatabase startedAt (nodeStarted eventId nodeId sequence) =
      some ({ s with
        workflowRuns := PostgresEventStore.ensureRunExists s.workflowRuns runId startedAt
        workflowEvents := s.workflowEvents ++ [nodeRow (nodeStarted eventId nodeId sequence)] },
        ⟨runId, "node.started"⟩) := by
  have hrun : textDatabase.uuid (nodeStarted eventId nodeId sequence).runId = some runId := rfl
  have hid : textDatabase.uuid (nodeStarted eventId nodeId sequence).eventId = some eventId := rfl
  have hsequence : (nodeStarted eventId nodeId sequence).sequence = sequence := rfl
  unfold PostgresEventStore.append
  simp only [eventToDict_nodeStarted, hrun, hid, hsequence, jsonb_payload, hfits, hnew, hnumber,
    Option.bind_eq_bind, Option.bind_some, Bool.not_true, Bool.false_eq_true, if_false]
  rfl

end

def planStarted : StoreEvent := nodeStarted "00000000-0000-4000-8000-000000000001" "plan" 0

def writeStarted : StoreEvent := nodeStarted "00000000-0000-4000-8000-000000000002" "write" 1

def now : String := "2026-01-01T00:00:01Z"

/-- The store with the run and its events. -/
def storeOf (events : List (postgres.EventRow String)) : PostgresEventStore String :=
  ⟨[⟨runId, "", "running", now, ""⟩], events, []⟩

theorem append_plan : PostgresEventStore.append nodeCodec textDatabase now .empty planStarted =
    some (storeOf [nodeRow planStarted], ⟨runId, "node.started"⟩) :=
  append_nodeStarted _ _ _ (by decide) rfl rfl

theorem append_write :
    (storeOf [nodeRow planStarted]).append nodeCodec textDatabase now writeStarted =
      some (storeOf [nodeRow planStarted, nodeRow writeStarted], ⟨runId, "node.started"⟩) := by
  have hnew : (storeOf [nodeRow planStarted]).workflowEvents.any
      (fun r => r.eventId = writeStarted.eventId) = false := by
    decide +kernel
  have hnumber : (storeOf [nodeRow planStarted]).workflowEvents.any
      (fun r => r.runId = runId && r.sequence = writeStarted.sequence) = false := by
    decide +kernel
  exact append_nodeStarted _ _ _ (by decide) hnew hnumber

/-- The state after the plan, and perhaps the writing, was appended. -/
def after (events : List StoreEvent) (waiting : Nat) (delivered : List StoreEvent) :
    Subscription String where
  store := storeOf (events.map nodeRow)
  handlers := List.replicate waiting (.waiting ⟨runId, "node.started"⟩)
  committed := events.map nodeRow
  delivered := delivered

theorem plan_appended : Step nodeCodec textDatabase runId ⟨.empty, [], [], []⟩
    (.append now planStarted) (after [planStarted] 1 []) := by
  have hinserted : inserted textDatabase runId .empty (storeOf [nodeRow planStarted]) =
      [nodeRow planStarted] := by
    simp [inserted, storeOf, PostgresEventStore.empty, ofRun, textDatabase, nodeRow, planStarted,
      nodeStarted]
  have hstep := @Step.appended _ _ _ _ runId ⟨.empty, [], [], []⟩ _ _ _ _ append_plan
  rw [hinserted] at hstep
  exact hstep

theorem write_appended (waiting : Nat) (delivered : List StoreEvent) :
    Step nodeCodec textDatabase runId (after [planStarted] waiting delivered)
      (.append now writeStarted) (after [planStarted, writeStarted] (waiting + 1) delivered) := by
  have hinserted : inserted textDatabase runId (storeOf [nodeRow planStarted])
      (storeOf [nodeRow planStarted, nodeRow writeStarted]) = [nodeRow writeStarted] := by
    simp [inserted, storeOf, ofRun, textDatabase, nodeRow, writeStarted, nodeStarted]
  have hstep := @Step.appended _ _ _ _ runId (after [planStarted] waiting delivered) _ _ _ _
    append_write
  rw [show (after [planStarted] waiting delivered).store = storeOf [nodeRow planStarted] from rfl,
    hinserted] at hstep
  simp only [after, List.replicate_succ'] at hstep ⊢
  exact hstep

theorem newest_plan :
    newestRow textDatabase runId (storeOf [nodeRow planStarted]) = some (nodeRow planStarted) := by
  simp [newestRow, storeOf, ofRun, textDatabase, nodeRow, planStarted, nodeStarted, latest, later]

theorem newest_write :
    newestRow textDatabase runId (storeOf [nodeRow planStarted, nodeRow writeStarted]) =
      some (nodeRow writeStarted) := by
  simp [newestRow, storeOf, ofRun, textDatabase, nodeRow, planStarted, writeStarted, nodeStarted,
    latest, later]

theorem plan_handled (waiting : Nat) (delivered : List StoreEvent) :
    Run ((subscription nodeCodec textDatabase runId).restrict
        (Allowed nodeCodec textDatabase runId))
      (after [planStarted] (waiting + 1) delivered) [.start, .answer, .deliver]
      (after [planStarted] waiting (delivered ++ [planStarted])) :=
  handled rfl rfl (by simp) newest_plan (eventOf_nodeRow _ _ _)

theorem write_handled (waiting : Nat) (delivered : List StoreEvent) :
    Run ((subscription nodeCodec textDatabase runId).restrict
        (Allowed nodeCodec textDatabase runId))
      (after [planStarted, writeStarted] (waiting + 1) delivered) [.start, .answer, .deliver]
      (after [planStarted, writeStarted] waiting (delivered ++ [writeStarted])) :=
  handled rfl rfl (by simp) newest_write (eventOf_nodeRow _ _ _)

theorem two_events_are_delivered :
    ExactlyOnce nodeCodec (after [planStarted, writeStarted] 0 [planStarted, writeStarted]) := by
  apply delivers_exactly_once nodeCodec textDatabase runId
  have hplan : AppendAllowed nodeCodec textDatabase runId ⟨.empty, [], [], []⟩ planStarted := by
    refine ⟨fun hthere => ?_, fun _ _ _ _ => ⟨rfl, ?_, ?_, ?_⟩⟩
    · obtain ⟨r, hr, -⟩ := hthere
      cases hr
    · simp
    · simp [PostgresEventStore.empty]
    · rw [planStarted, readBack_nodeStarted]
      rfl
  have hwrite : AppendAllowed nodeCodec textDatabase runId (after [planStarted] 0 [planStarted])
      writeStarted := by
    refine ⟨fun hthere => ?_, fun _ _ _ _ => ⟨rfl, ?_, ?_, ?_⟩⟩
    · obtain ⟨r, hr, hid⟩ := hthere
      rw [List.mem_singleton.mp hr] at hid
      revert hid
      decide +kernel
    · simp [after]
    · intro r hr _
      rw [List.mem_singleton.mp hr]
      decide
    · rw [writeStarted, readBack_nodeStarted]
      rfl
  exact ⟨_, _, ⟨rfl, rfl, rfl⟩, .step ⟨plan_appended, hplan⟩ ((plan_handled 0 []).append
    (.step ⟨write_appended 0 _, hwrite⟩ (write_handled 0 _)))⟩

/-- Two nodes start before the first handler runs: the callback gets the second event
twice, and never the first one. -/
theorem an_event_is_skipped :
    ¬ ∀ s, Reachable (subscription nodeCodec textDatabase runId) s → ExactlyOnce nodeCodec s := by
  intro hall
  have hreachable : Reachable (subscription nodeCodec textDatabase runId)
      (after [planStarted, writeStarted] 0 [writeStarted, writeStarted]) :=
    ⟨_, _, ⟨rfl, rfl, rfl⟩, .step plan_appended (.step (write_appended 1 [])
      ((write_handled 1 []).append (write_handled 0 _)).of_restrict)⟩
  have hcomplete := (hall _ hreachable).complete rfl
  have hfirst : some writeStarted = eventOf nodeCodec (nodeRow planStarted) :=
    (List.cons.inj hcomplete).1
  rw [planStarted, eventOf_nodeRow] at hfirst
  have hid := congrArg StoreEvent.eventId (Option.some.inj hfirst)
  revert hid
  decide +kernel

end orchestra.subscriptions
