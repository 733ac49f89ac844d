-- The writers of one run on Postgres (`storage/postgres.py`): several processes append to one
-- database, each in a transaction that takes an advisory lock. The number of the lock comes from
-- Python's `hash` of the run id, with a salt of the process.
import Orchestra.Lib.Locks
import Orchestra.Stores

open machine locks orchestra.stores

namespace orchestra.writers

/-! ## Processes and their transactions -/

/-- The processes that use the store on one database, each with its hash of strings and with a pool
of connections. -/
structure Deployment where
  Process : Type
  decEq : DecidableEq Process
  hash : Process → String → Int
  maxPoolSize : Process → Nat
  pooled : ∀ p, 0 < maxPoolSize p

namespace Deployment

variable (D : Deployment)

instance : DecidableEq D.Process := D.decEq

/-- A connection of the pool of a process. -/
abbrev Connection : Type := (p : D.Process) × Fin (D.maxPoolSize p)

/-- `hash(run_id) & 0x7FFFFFFF` -/
def lockId (p : D.Process) (runId : String) : Int := D.hash p runId % 0x80000000

/-- The lock that `append` of an event takes on a connection, in `_locked_transaction`. -/
def lockOf (c : D.Connection) (event : StoreEvent) : Int := D.lockId c.1 event.runId

/-- All interleavings of appends: a connection is acquired and asks for the lock, it gets it, and
the transaction ends, by a commit or by an error. -/
def appends : Machine (Sessions D.Connection StoreEvent) (Step D.Connection StoreEvent) :=
  machine D.lockOf

end Deployment

variable {D : Deployment}

/-- No two processes are inside the locked transaction of the run. -/
def OneWriter (runId : String) (s : Sessions D.Connection StoreEvent) : Prop :=
  ∀ c d e f, Inside s c e → Inside s d f → e.runId = runId → f.runId = runId → c.1 = d.1

/-- The processes that append to the run have one number for its lock. -/
def Agree (D : Deployment) (runId : String) (number : Int) (c : D.Connection) (e : StoreEvent) :
    Prop :=
  e.runId = runId → D.lockId c.1 runId = number

/-! ## One writer at a time -/

/-- Connections of processes with one number for the lock are not inside together. -/
theorem one_transaction {runId : String} {s : Sessions D.Connection StoreEvent}
    (h : Reachable D.appends s) {c d : D.Connection} {e f : StoreEvent} (hc : Inside s c e)
    (hd : Inside s d f) (he : e.runId = runId) (hf : f.runId = runId)
    (hsame : D.lockId c.1 runId = D.lockId d.1 runId) : c = d := by
  refine guarded_of_reachable h c d e f hc hd ?_
  unfold Deployment.lockOf
  rw [he, hf, hsame]

/-- In a run where the processes that append agree, at most one is inside. -/
theorem one_writer_of_agree {runId : String} {number : Int} {s : Sessions D.Connection StoreEvent}
    (h : Reachable (D.appends.restrict fun _ a => ∀ c e, a = .ask c e →
      Agree D runId number c e) s) : OneWriter runId s := by
  intro c d e f hc hd he hf
  have hasked := asked_of_restrict h
  have hsame : D.lockId c.1 runId = D.lockId d.1 runId := by
    rw [hasked c e _ hc he, hasked d f _ hd hf]
  exact congrArg Sigma.fst (one_transaction h.of_restrict hc hd he hf hsame)

/-- An event of the run. -/
def eventOf (runId : String) : StoreEvent :=
  ⟨"", runId, "", 0, .nodeStarted "" ""⟩

/-- Two processes with different numbers are inside together. -/
theorem two_writers {runId : String} {p q : D.Process}
    (h : D.lockId p runId ≠ D.lockId q runId) :
    ∃ s, Reachable D.appends s ∧ ¬ OneWriter runId s := by
  have hpq : p ≠ q := fun heq => h (by rw [heq])
  have hconn : (⟨p, 0, D.pooled p⟩ : D.Connection) ≠ ⟨q, 0, D.pooled q⟩ := fun heq =>
    hpq (congrArg Sigma.fst heq)
  have hkey : D.lockOf ⟨p, 0, D.pooled p⟩ (eventOf runId) ≠
      D.lockOf ⟨q, 0, D.pooled q⟩ (eventOf runId) := h
  obtain ⟨s, hreach, hp, hq⟩ := both_inside hconn hkey
  exact ⟨s, hreach, fun hone => hpq (hone _ _ _ _ hp hq rfl rfl)⟩

/-- Two processes with salts of their own. -/
def salted : Deployment where
  Process := Bool
  decEq := inferInstance
  hash p s := if p then s.length else -s.length
  maxPoolSize _ := 20
  pooled _ := by decide

/-- They take different locks for one run. -/
theorem two_salts_let_two_writers_in : ∃ s, Reachable salted.appends s ∧ ¬ OneWriter "run" s :=
  two_writers (p := true) (q := false) (by decide)

/-- At most one process at a time is inside the locked transaction of a run, in every interleaving,
if and only if all processes have the same number for its lock. In any run of them it is enough that
those that append to the run have. -/
theorem one_writer_iff (D : Deployment) (runId : String) :
    ((∀ s, Reachable D.appends s → OneWriter runId s) ↔
      ∀ p q, D.lockId p runId = D.lockId q runId) ∧
      ∀ number s, Reachable (D.appends.restrict fun _ a => ∀ c e, a = .ask c e →
        Agree D runId number c e) s → OneWriter runId s := by
  refine ⟨⟨fun h p q => ?_, fun h s hs c d e f hc hd he hf => ?_⟩, fun number s hs =>
    one_writer_of_agree hs⟩
  · refine not_not.mp fun hne => ?_
    obtain ⟨s, hs, htwo⟩ := two_writers hne
    exact htwo (h s hs)
  · exact congrArg Sigma.fst (one_transaction hs hc hd he hf (h c.1 d.1))

end orchestra.writers
