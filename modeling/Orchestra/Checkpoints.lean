-- Checkpoints that are saved to a database and loaded again, as the resume of a
-- run loads the latest one.
import Orchestra.Postgres

open dicts jsons latests orchestra.edges orchestra.coding orchestra.stores orchestra.postgres

namespace orchestra.checkpoints

/-! ## Equal checkpoints -/

/-- What a resume takes from a checkpoint is the same in both. -/
structure SameCheckpoint (a b : Checkpoint) : Prop where
  state : SameState a.state b.state
  nodeId : a.nodeId = b.nodeId
  interruptType : a.interruptType = b.interruptType
  sequenceNumber : a.sequenceNumber = b.sequenceNumber
  loopCounters : ∀ key, a.loopCounters.get? key = b.loopCounters.get? key
  nodeExecutionOrder : a.nodeExecutionOrder = b.nodeExecutionOrder

theorem eq_empty_of_get? {α : Type} {d : Dict String α} (h : ∀ key, d.get? key = none) :
    d = .empty := by
  apply Dict.ext_entries
  rcases hentries : d.entries with _ | ⟨⟨key, value⟩, rest⟩
  · rfl
  · have hnone := (d.get?_eq_none_iff key).mp (h key)
    simp [Dict.keys, hentries] at hnone

/-! ## SQLite -/

/-- The latest checkpoint of the run after the checkpoint is saved is equal to it. -/
def RestoredBySqlite (fallback : Fallback) (s : SQLiteEventStore) (c : Checkpoint) : Prop :=
  ∃ s' d, s.saveCheckpoint fallback c = some s' ∧
    s'.getLatestCheckpoint c.runId = some (some d) ∧ SameCheckpoint d c

/-- No other row of the run has a greater number than the checkpoint. -/
structure NewestOnSqlite (s : SQLiteEventStore) (c : Checkpoint) : Prop where
  fits : SQLiteEventStore.fits64 c.sequenceNumber = true
  newest : ∀ r ∈ s.workflowCheckpoints, r.runId = c.runId → r.checkpointId ≠ c.checkpointId →
    r.sequenceAt ≤ c.sequenceNumber

theorem latestRow_saved {fallback : Fallback} {s s' : SQLiteEventStore} {c : Checkpoint}
    (h : s.saveCheckpoint fallback c = some s') :
    s'.latestRow c.runId = latest stores.CheckpointRow.sequenceAt
      ((s.workflowCheckpoints.filter
        (fun r => r.runId = c.runId && r.checkpointId ≠ c.checkpointId)) ++
          [SQLiteEventStore.rowOf fallback c]) := by
  unfold SQLiteEventStore.saveCheckpoint at h
  split at h
  · cases h
    have hrow : (SQLiteEventStore.rowOf fallback c).runId = c.runId := rfl
    simp only [SQLiteEventStore.latestRow, List.filter_append, List.filter_filter,
      List.filter_singleton, hrow, decide_true, cond_true]
  · cases h

theorem sequenceNumber_of_checkpointOf {r : stores.CheckpointRow} {d : Checkpoint}
    (h : SQLiteEventStore.checkpointOf r = some d) : d.sequenceNumber = r.sequenceAt := by
  unfold SQLiteEventStore.checkpointOf at h
  obtain ⟨state, -, h⟩ := Option.bind_eq_some_iff.mp h
  obtain ⟨ctx, -, h⟩ := Option.bind_eq_some_iff.mp h
  split at h
  · obtain ⟨loopCounters, -, h⟩ := Option.bind_eq_some_iff.mp h
    obtain ⟨order, -, h⟩ := Option.bind_eq_some_iff.mp h
    cases h
    rfl
  · cases h

theorem restoredBySqlite_iff (fallback : Fallback) (s : SQLiteEventStore) {c : Checkpoint}
    (hjson : JsonValuedItems c.state.entries) :
    RestoredBySqlite fallback s c ↔ NewestOnSqlite s c := by
  have hback : SQLiteEventStore.checkpointOf (SQLiteEventStore.rowOf fallback c) =
      some { c with metadata := .empty } := by
    rw [SQLiteEventStore.checkpointOf_rowOf, (stateOf_safeSerialize_iff fallback c.state).mpr hjson]
    rfl
  constructor
  · rintro ⟨s', d, hsave, hload, hsame⟩
    unfold SQLiteEventStore.getLatestCheckpoint at hload
    rw [latestRow_saved hsave] at hload
    split at hload
    · cases hload
    · rename_i r hr
      obtain ⟨d', hd', hload⟩ := Option.map_eq_some_iff.mp hload
      cases hload
      have hnumber : c.sequenceNumber = r.sequenceAt := by
        rw [← hsame.sequenceNumber, sequenceNumber_of_checkpointOf hd']
      have hfits : SQLiteEventStore.fits64 c.sequenceNumber = true := by
        by_contra hfits
        simp [SQLiteEventStore.saveCheckpoint, hfits] at hsave
      refine ⟨hfits, fun b hb hrun hid => ?_⟩
      rw [hnumber]
      apply (latest_spec hr).2
      apply List.mem_append_left
      exact List.mem_filter.mpr ⟨hb, by simp [hrun, hid]⟩
  · intro h
    obtain ⟨s', hsave⟩ : ∃ s', s.saveCheckpoint fallback c = some s' := by
      simp [SQLiteEventStore.saveCheckpoint, h.fits]
    have hlatest : s'.latestRow c.runId = some (SQLiteEventStore.rowOf fallback c) := by
      rw [latestRow_saved hsave, latest_snoc_iff]
      intro r hr
      obtain ⟨hmem, hr⟩ := List.mem_filter.mp hr
      rw [Bool.and_eq_true, decide_eq_true_eq, decide_eq_true_eq] at hr
      exact h.newest r hmem hr.1 hr.2
    refine ⟨s', { c with metadata := .empty }, hsave, ?_, ?_⟩
    · simp only [SQLiteEventStore.getLatestCheckpoint, hlatest, hback]
      rfl
    · exact ⟨Same.refl _, rfl, rfl, rfl, fun _ => rfl, rfl⟩

/-! ## Postgres -/

section postgres

variable {U : Type} [DecidableEq U]

/-- The same on Postgres, whose driver gives the JSONB columns as texts. -/
def RestoredByPostgres (db : Database U) (fallback : Fallback) (s : PostgresEventStore U)
    (c : Checkpoint) : Prop :=
  ∃ s' d, s.saveCheckpoint db fallback c = some s' ∧
    s'.getLatestCheckpoint .text db c.runId = some (some d) ∧ SameCheckpoint d c

/-- The row shows the checkpoint with the id, or one that is equal to it. -/
structure Shows (r : postgres.CheckpointRow U) (checkpointId : U) (c : Checkpoint) : Prop where
  nodeId : r.nodeId = c.nodeId
  interruptType : r.interruptType = c.interruptType
  sequenceNumber : r.sequenceAt = c.sequenceNumber
  state : r.checkpointId = checkpointId ∨
    ∃ state, (loads r.stateSnapshot).bind stateOf = some state ∧ SameState state c.state

/-- The columns take the checkpoint, with the ids and the JSONB texts that they
store of it. -/
structure Taken (db : Database U) (fallback : Fallback) (c : Checkpoint) (runId checkpointId : U)
    (stateSnapshot executionContext : String) : Prop where
  run : db.uuid c.runId = some runId
  id : db.uuid c.checkpointId = some checkpointId
  state : db.jsonb (safeSerialize fallback c.state) = some stateSnapshot
  context : db.jsonb (dumps (contextJson c.loopCounters c.nodeExecutionOrder)) =
    some executionContext
  columns : (storable c.nodeId && storable c.interruptType && fits32 c.sequenceNumber) = true

/-- The checkpoint is the newest of its run. A row with its id must already show it
as the latest, and a new row must be of a known run with no greater number. -/
def NewestOnPostgres (s : PostgresEventStore U) (c : Checkpoint) (runId checkpointId : U) : Prop :=
  if s.workflowCheckpoints.any (fun r => r.checkpointId = checkpointId) then
    ∃ r, s.latestRow runId = some r ∧ Shows r checkpointId c
  else s.workflowRuns.any (fun r => r.runId = runId) = true ∧
    ∀ r ∈ s.workflowCheckpoints, r.runId = runId → r.sequenceAt ≤ c.sequenceNumber

/-- The columns take the checkpoint, it has neither loop counters nor an execution
order, and it is the newest of its run. -/
def PlainAndNewest (db : Database U) (fallback : Fallback) (s : PostgresEventStore U)
    (c : Checkpoint) : Prop :=
  c.loopCounters = .empty ∧ c.nodeExecutionOrder = [] ∧
    ∃ runId checkpointId stateSnapshot executionContext,
      Taken db fallback c runId checkpointId stateSnapshot executionContext ∧
      NewestOnPostgres s c runId checkpointId

omit [DecidableEq U] in
/-- The driver's texts lose the execution context. -/
theorem checkpointOf_text (db : Database U) (runId : String) (r : postgres.CheckpointRow U) :
    PostgresEventStore.checkpointOf .text db runId r =
      ((loads r.stateSnapshot).bind stateOf).map fun state =>
        ⟨runId, db.text r.checkpointId, r.sequenceAt, r.nodeId, r.interruptType, state, .empty, [],
          r.createdAt, .empty⟩ := by
  have hstate : PostgresEventStore.stateOfColumn (.text r.stateSnapshot) =
      (loads r.stateSnapshot).bind stateOf := rfl
  unfold PostgresEventStore.checkpointOf
  rw [hstate]
  rcases (loads r.stateSnapshot).bind stateOf with _ | state
  · rfl
  · rfl

omit [DecidableEq U] in
/-- A JSON state comes back from the JSONB column. -/
theorem state_of_jsonb (db : Database U) {fallback : Fallback} {state : PyDict} {t : String}
    (hjson : JsonValuedItems state.entries)
    (h : db.jsonb (safeSerialize fallback state) = some t) :
    ∃ state', (loads t).bind stateOf = some state' ∧ SameState state' state := by
  obtain ⟨j, hj, hsame⟩ := db.keeps h (loads_safeSerialize fallback hjson)
  simp only [valueOf, valueOfItems_jsonOfItems fallback _ hjson] at hsame
  cases j with
  | obj members =>
    have hnodup : ((valueOfItems members).map Prod.fst).Nodup := by
      rw [keys_valueOfItems]
      exact (loads_distinct hj).1
    refine ⟨Dict.ofList (valueOfItems members), by rw [hj]; rfl, ?_⟩
    unfold SameState
    rw [entries_ofList hnodup]
    exact hsame
  | _ => cases hsame

/-- A row with its new state, context and time. -/
def rewritten (checkpointId : U) (stateSnapshot executionContext createdAt : String)
    (r : postgres.CheckpointRow U) : postgres.CheckpointRow U :=
  if r.checkpointId = checkpointId then { r with stateSnapshot, executionContext, createdAt } else r

theorem rewritten_frame (checkpointId : U) (stateSnapshot executionContext createdAt : String)
    (r : postgres.CheckpointRow U) :
    (rewritten checkpointId stateSnapshot executionContext createdAt r).runId = r.runId ∧
      (rewritten checkpointId stateSnapshot executionContext createdAt r).nodeId = r.nodeId ∧
      (rewritten checkpointId stateSnapshot executionContext createdAt r).interruptType =
        r.interruptType ∧
      (rewritten checkpointId stateSnapshot executionContext createdAt r).sequenceAt =
        r.sequenceAt := by
  unfold rewritten
  split <;> exact ⟨rfl, rfl, rfl, rfl⟩

def withCheckpoints (s : PostgresEventStore U) (rows : List (postgres.CheckpointRow U)) :
    PostgresEventStore U :=
  { s with workflowCheckpoints := rows }

/-- The row of a new checkpoint. -/
def newRow (runId checkpointId : U) (stateSnapshot executionContext : String) (c : Checkpoint) :
    postgres.CheckpointRow U :=
  ⟨runId, checkpointId, c.nodeId, c.interruptType, c.sequenceNumber, stateSnapshot,
    executionContext, c.timestamp⟩

section saved

variable {db : Database U} {fallback : Fallback} {s s' : PostgresEventStore U} {c : Checkpoint}
  {runId checkpointId : U} {stateSnapshot executionContext : String}

theorem saveCheckpoint_of_taken
    (h : Taken db fallback c runId checkpointId stateSnapshot executionContext) :
    s.saveCheckpoint db fallback c =
      if s.workflowCheckpoints.any (fun r => r.checkpointId = checkpointId) then
        some (withCheckpoints s (s.workflowCheckpoints.map
          (rewritten checkpointId stateSnapshot executionContext c.timestamp)))
      else if s.workflowRuns.any (fun r => r.runId = runId) then
        some (withCheckpoints s (s.workflowCheckpoints ++
          [newRow runId checkpointId stateSnapshot executionContext c]))
      else none := by
  unfold PostgresEventStore.saveCheckpoint
  simp only [h.run, h.id, h.state, h.context, h.columns, Option.bind_eq_bind, Option.bind_some,
    Bool.not_true, Bool.false_eq_true, if_false]
  rfl

theorem taken_of_saved (h : s.saveCheckpoint db fallback c = some s') :
    ∃ runId checkpointId stateSnapshot executionContext,
      Taken db fallback c runId checkpointId stateSnapshot executionContext := by
  unfold PostgresEventStore.saveCheckpoint at h
  obtain ⟨runId, hrun, h⟩ := Option.bind_eq_some_iff.mp h
  obtain ⟨checkpointId, hid, h⟩ := Option.bind_eq_some_iff.mp h
  obtain ⟨stateSnapshot, hstate, h⟩ := Option.bind_eq_some_iff.mp h
  obtain ⟨executionContext, hcontext, h⟩ := Option.bind_eq_some_iff.mp h
  refine ⟨runId, checkpointId, stateSnapshot, executionContext, hrun, hid, hstate, hcontext, ?_⟩
  split at h
  · cases h
  · rename_i hcolumns
    simpa only [Bool.not_eq_true, Bool.not_eq_false'] using hcolumns

theorem latestRow_rewritten (s : PostgresEventStore U) (runId checkpointId : U)
    (stateSnapshot executionContext createdAt : String) :
    (withCheckpoints s (s.workflowCheckpoints.map
        (rewritten checkpointId stateSnapshot executionContext createdAt))).latestRow runId =
      (s.latestRow runId).map
        (rewritten checkpointId stateSnapshot executionContext createdAt) := by
  have hframe := rewritten_frame checkpointId stateSnapshot executionContext createdAt
  unfold PostgresEventStore.latestRow withCheckpoints
  rw [List.filter_map]
  simp only [Function.comp_def, fun r => (hframe r).1]
  exact latest_map (fun r _ => (hframe r).2.2.2)

theorem latestRow_newRow (s : PostgresEventStore U) (runId checkpointId : U)
    (stateSnapshot executionContext : String) (c : Checkpoint) :
    (withCheckpoints s (s.workflowCheckpoints ++
        [newRow runId checkpointId stateSnapshot executionContext c])).latestRow runId =
      latest postgres.CheckpointRow.sequenceAt
        (s.workflowCheckpoints.filter (fun r => r.runId = runId) ++
          [newRow runId checkpointId stateSnapshot executionContext c]) := by
  have hrow : (newRow runId checkpointId stateSnapshot executionContext c).runId = runId := rfl
  simp only [PostgresEventStore.latestRow, withCheckpoints, List.filter_append,
    List.filter_singleton, hrow, decide_true, cond_true]

/-- The row has the node, the interrupt type, the number and the state of the
checkpoint. -/
structure Matches (r : postgres.CheckpointRow U) (c : Checkpoint) : Prop where
  nodeId : r.nodeId = c.nodeId
  interruptType : r.interruptType = c.interruptType
  sequenceNumber : r.sequenceAt = c.sequenceNumber
  state : ∃ state, (loads r.stateSnapshot).bind stateOf = some state ∧ SameState state c.state

omit [DecidableEq U] in
theorem row_loaded_iff (r : postgres.CheckpointRow U) (c : Checkpoint) :
    (∃ d, PostgresEventStore.checkpointOf .text db c.runId r = some d ∧ SameCheckpoint d c) ↔
      c.loopCounters = .empty ∧ c.nodeExecutionOrder = [] ∧ Matches r c := by
  constructor
  · rintro ⟨d, hload, hsame⟩
    rw [checkpointOf_text, Option.map_eq_some_iff] at hload
    obtain ⟨state, hstate, rfl⟩ := hload
    have hcounters : c.loopCounters = .empty :=
      eq_empty_of_get? (fun key => (hsame.loopCounters key).symm)
    exact ⟨hcounters, hsame.nodeExecutionOrder.symm, hsame.nodeId, hsame.interruptType,
      hsame.sequenceNumber, state, hstate, hsame.state⟩
  · rintro ⟨hcounters, horder, h⟩
    obtain ⟨state, hstate, hsame⟩ := h.state
    rw [checkpointOf_text, hstate, Option.map_some]
    refine ⟨_, rfl, hsame, h.nodeId, h.interruptType, h.sequenceNumber, fun key => ?_, horder.symm⟩
    rw [hcounters]

theorem loaded_iff (hrun : db.uuid c.runId = some runId) :
    (∃ d, s.getLatestCheckpoint .text db c.runId = some (some d) ∧ SameCheckpoint d c) ↔
      c.loopCounters = .empty ∧ c.nodeExecutionOrder = [] ∧
        ∃ r, s.latestRow runId = some r ∧ Matches r c := by
  unfold PostgresEventStore.getLatestCheckpoint
  rw [hrun, Option.bind_eq_bind, Option.bind_some]
  rcases s.latestRow runId with _ | r
  · simp
  · simpa using row_loaded_iff r c

/-- The row with the id of the checkpoint matches it after the rewrite, another row
when it did before. -/
theorem matches_rewritten_iff (hjson : JsonValuedItems c.state.entries)
    (h : Taken db fallback c runId checkpointId stateSnapshot executionContext)
    (r : postgres.CheckpointRow U) :
    Matches (rewritten checkpointId stateSnapshot executionContext c.timestamp r) c ↔
      Shows r checkpointId c := by
  obtain ⟨-, hnode, htype, hnumber⟩ :=
    rewritten_frame checkpointId stateSnapshot executionContext c.timestamp r
  constructor
  · intro hmatches
    refine ⟨hnode ▸ hmatches.nodeId, htype ▸ hmatches.interruptType,
      hnumber ▸ hmatches.sequenceNumber, ?_⟩
    by_cases hid : r.checkpointId = checkpointId
    · exact .inl hid
    · have hstate := hmatches.state
      rw [rewritten, if_neg hid] at hstate
      exact .inr hstate
  · intro hshows
    refine ⟨hnode.trans hshows.nodeId, htype.trans hshows.interruptType,
      hnumber.trans hshows.sequenceNumber, ?_⟩
    by_cases hid : r.checkpointId = checkpointId
    · rw [rewritten, if_pos hid]
      exact state_of_jsonb db hjson h.state
    · rw [rewritten, if_neg hid]
      exact hshows.state.resolve_left hid

omit [DecidableEq U] in
theorem matches_newRow (hjson : JsonValuedItems c.state.entries)
    (h : Taken db fallback c runId checkpointId stateSnapshot executionContext) :
    Matches (newRow runId checkpointId stateSnapshot executionContext c) c :=
  ⟨rfl, rfl, rfl, state_of_jsonb db hjson h.state⟩

/-- After the save the latest row of the run matches the checkpoint just when the
checkpoint was the newest. -/
theorem saved_matches_iff (hjson : JsonValuedItems c.state.entries)
    (h : Taken db fallback c runId checkpointId stateSnapshot executionContext) :
    (∃ s' r, s.saveCheckpoint db fallback c = some s' ∧ s'.latestRow runId = some r ∧
        Matches r c) ↔
      NewestOnPostgres s c runId checkpointId := by
  rw [saveCheckpoint_of_taken h]
  unfold NewestOnPostgres
  split
  · constructor
    · rintro ⟨s', r, hs', hr, hmatches⟩
      cases hs'
      rw [latestRow_rewritten, Option.map_eq_some_iff] at hr
      obtain ⟨r₀, hr₀, rfl⟩ := hr
      exact ⟨r₀, hr₀, (matches_rewritten_iff hjson h r₀).mp hmatches⟩
    · rintro ⟨r₀, hr₀, hshows⟩
      refine ⟨_, _, rfl, ?_, (matches_rewritten_iff hjson h r₀).mpr hshows⟩
      rw [latestRow_rewritten, hr₀]
      rfl
  · split
    · rename_i hknown
      constructor
      · rintro ⟨s', r, hs', hr, hmatches⟩
        cases hs'
        rw [latestRow_newRow] at hr
        refine ⟨hknown, fun b hb hbrun => ?_⟩
        rw [← hmatches.sequenceNumber]
        apply (latest_spec hr).2
        apply List.mem_append_left
        exact List.mem_filter.mpr ⟨hb, decide_eq_true hbrun⟩
      · rintro ⟨-, hnewest⟩
        refine ⟨_, _, rfl, ?_, matches_newRow hjson h⟩
        rw [latestRow_newRow, latest_snoc_iff]
        intro b hb
        obtain ⟨hmem, hbrun⟩ := List.mem_filter.mp hb
        exact hnewest b hmem (of_decide_eq_true hbrun)
    · rename_i hknown
      simp [hknown]

end saved

theorem restoredByPostgres_iff (db : Database U) (fallback : Fallback) (s : PostgresEventStore U)
    {c : Checkpoint} (hjson : JsonValuedItems c.state.entries) :
    RestoredByPostgres db fallback s c ↔ PlainAndNewest db fallback s c := by
  constructor
  · rintro ⟨s', d, hsave, hload⟩
    obtain ⟨runId, checkpointId, stateSnapshot, executionContext, htaken⟩ := taken_of_saved hsave
    obtain ⟨hcounters, horder, r, hr, hmatches⟩ := (loaded_iff htaken.run).mp ⟨d, hload⟩
    have hnewest := (saved_matches_iff hjson htaken).mp ⟨s', r, hsave, hr, hmatches⟩
    exact ⟨hcounters, horder, runId, checkpointId, stateSnapshot, executionContext, htaken, hnewest⟩
  · rintro ⟨hcounters, horder, runId, checkpointId, stateSnapshot, executionContext, htaken,
      hnewest⟩
    obtain ⟨s', r, hsave, hr, hmatches⟩ := (saved_matches_iff hjson htaken).mpr hnewest
    obtain ⟨d, hload⟩ := (loaded_iff htaken.run).mpr ⟨hcounters, horder, r, hr, hmatches⟩
    exact ⟨s', d, hsave, hload⟩

/-! ## The round trip -/

/-- A JSON state given, SQLite restores a checkpoint just when it is the newest of its
run, and Postgres just when it also has no loop counters and no execution order. -/
theorem checkpoint_restored_iff (db : Database U) (fallback : Fallback) (s : SQLiteEventStore)
    (p : PostgresEventStore U) (c : Checkpoint) (hjson : JsonValuedItems c.state.entries) :
    (RestoredBySqlite fallback s c ↔ NewestOnSqlite s c) ∧
      (RestoredByPostgres db fallback p c ↔ PlainAndNewest db fallback p c) :=
  ⟨restoredBySqlite_iff fallback s hjson, restoredByPostgres_iff db fallback p hjson⟩

end postgres

def runId : String := "7f0c2d1e-5a3b-4c6d-8e9f-0a1b2c3d4e5f"

def checkpointId : String := "1b9d6bcd-bbfd-4b2d-9b5d-ab8dfbbd4bed"

/-- A run that `create_run` has made. -/
def started : PostgresEventStore String :=
  ⟨[⟨runId, "research", "running", "2026-01-01T00:00:00+00:00", "plan"⟩], [], []⟩

/-- An interrupt before the node `review`, with the loop counters `loopCounters`. -/
def beforeReview (loopCounters : Counters) : Checkpoint where
  runId := runId
  checkpointId := checkpointId
  sequenceNumber := 7
  nodeId := "review"
  interruptType := "before"
  state := Dict.ofList [("draft", .str "text")]
  loopCounters := loopCounters
  nodeExecutionOrder := []
  timestamp := "2026-01-01T00:00:05+00:00"
  metadata := .empty

theorem json_beforeReview (loopCounters : Counters) :
    JsonValuedItems (beforeReview loopCounters).state.entries := by
  exact ⟨trivial, trivial⟩

theorem a_plain_checkpoint_is_restored :
    RestoredBySqlite (fun _ _ => .null) .empty (beforeReview .empty) ∧
      RestoredByPostgres textDatabase (fun _ _ => .null) started (beforeReview .empty) := by
  obtain ⟨hsqlite, hpostgres⟩ := checkpoint_restored_iff textDatabase (fun _ _ => .null) .empty
    started (beforeReview .empty) (json_beforeReview .empty)
  have hstate : (textDatabase.jsonb
      (safeSerialize (fun _ _ => .null) (beforeReview .empty).state)).isSome = true := by
    decide +kernel
  have hcontext : (textDatabase.jsonb (dumps (contextJson .empty []))).isSome = true := by
    decide +kernel
  obtain ⟨stateSnapshot, hstate⟩ := Option.isSome_iff_exists.mp hstate
  obtain ⟨executionContext, hcontext⟩ := Option.isSome_iff_exists.mp hcontext
  refine ⟨hsqlite.mpr ⟨by decide, by simp [SQLiteEventStore.empty]⟩, hpostgres.mpr ?_⟩
  refine ⟨rfl, rfl, runId, checkpointId, stateSnapshot, executionContext, ?_, ?_⟩
  · exact ⟨rfl, rfl, hstate, hcontext, by decide +kernel⟩
  · exact ⟨by decide +kernel, by simp [started]⟩

/-- A loop that has run twice would start counting afresh. -/
theorem a_loop_counter_is_lost :
    ¬ RestoredByPostgres textDatabase (fun _ _ => .null) started
      (beforeReview (Dict.ofList [("revise", 2)])) := by
  rw [restoredByPostgres_iff textDatabase _ started (json_beforeReview _)]
  intro h
  exact absurd h.1 (by decide +kernel)

end orchestra.checkpoints
