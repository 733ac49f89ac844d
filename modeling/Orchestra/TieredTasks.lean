-- Tiered memory (`memory/tiers.py`) as tasks of one event loop: each call is a
-- program, and other tasks run wherever it waits for the lock or for a backend.
import Orchestra.Lib.Program
import Orchestra.Tiers

open dicts machine programs Program orchestra.tiers

namespace orchestra.tiered_tasks

variable {V : Type}

/-! ## What a task waits for -/

/-- The steps of the calls. What is done under the policy lock is one step, and so is
a call of a backend. -/
inductive Ask (V : Type)
  | lookHot (key : String) (promote : Bool)
  | lookWarm (key : String) (promote : Bool)
  | insert (key : String) (value : V)
  | takeUp (key : String) (value : V)
  | remove (key : String)
  | warmGet (key : String)
  | warmSet (key : String) (value : V)
  | warmDelete (key : String)
  | coldRetrieve (key : String)
  | coldStore (key : String) (value : V)
  | embed (value : V)

/-- A look into a segment gives the value and the evictions of the access. -/
@[reducible] def Answer : Ask V → Type
  | .lookHot _ _ | .lookWarm _ _ => Option V × List (String × Tier)
  | .insert _ _ | .takeUp _ _ => List (String × Tier)
  | .warmGet _ | .coldRetrieve _ => Option V
  | .remove _ | .warmSet _ _ | .warmDelete _ | .coldStore _ _ | .embed _ => Unit

/-- What is found in a segment, which counts as an access. -/
def found (m : TieredMemoryManager V) (segment : Dict String V) (key : String) (promote : Bool) :
    TieredMemoryManager V × Option V × List (String × Tier) :=
  match segment.get? key with
  | some v =>
    if promote then
      let accessed := m.policy.access key
      ({ m with policy := accessed.1 }, some v, accessed.2)
    else (m, some v, [])
  | none => (m, none, [])

/-- What a step does to the manager, and its answer. -/
def perform (m : TieredMemoryManager V) : (q : Ask V) → TieredMemoryManager V × Answer q
  | .lookHot key promote => found m m.policy.hot key promote
  | .lookWarm key promote => found m m.policy.warm key promote
  | .insert key value =>
    let inserted := m.policy.insert key value
    ({ m with policy := inserted.1 }, inserted.2)
  | .takeUp key value =>
    let inserted := m.policy.insert key value
    let accessed := inserted.1.access key
    ({ m with policy := accessed.1 }, inserted.2)
  | .remove key => ({ m with policy := m.policy.remove key }, ())
  | .warmGet key => (m, m.warmBackend.bind (fun b => b key))
  | .warmSet key value => (m.setWarm key value, ())
  | .warmDelete key => ({ m with warmBackend := m.warmBackend.map (fun b => b.delete key) }, ())
  | .coldRetrieve key => (m, m.coldBackend.bind (fun b => b key))
  | .coldStore key value =>
    ({ m with coldBackend := m.coldBackend.map (fun b => b.put key value) }, ())
  | .embed _ => (m, ())

/-! ## The calls -/

/-- Nothing raises. -/
abbrev Code (V α : Type) : Type := Program (Ask V) Answer Empty α

/-- Which of the optional parts there are. -/
structure Parts where
  warm : Bool
  cold : Bool
  dedup : Bool

/-- Run `p` if `b` holds. -/
def onlyIf (b : Bool) (p : Code V Unit) : Code V Unit := if b then p else pure ()

def warmGet (c : Parts) (key : String) : Code V (Option V) :=
  if c.warm then query (.warmGet key : Ask V) else pure none

def coldRetrieve (c : Parts) (key : String) : Code V (Option V) :=
  if c.cold then query (.coldRetrieve key : Ask V) else pure none

def warmSet (c : Parts) (key : String) (value : V) : Code V Unit :=
  onlyIf c.warm (query (.warmSet key value : Ask V))

/-- Put the value of a backend into the policy. -/
def takeUp (handle : List (String × Tier) → Code V Unit) (key : String) (value : V) :
    Code V Unit := do
  let evictions ← query (.takeUp key value : Ask V)
  handle evictions

/-- `retrieve`, with what is done about evictions. -/
def retrieveWith (c : Parts) (handle : List (String × Tier) → Code V Unit) (key : String)
    (promote : Bool) : Code V (Option V) := do
  let hot ← query (.lookHot key promote : Ask V)
  match hot.1 with
  | some v =>
    handle hot.2
    pure (some v)
  | none =>
    let warm ← query (.lookWarm key promote : Ask V)
    match warm.1 with
    | some v =>
      handle warm.2
      pure (some v)
    | none =>
      match ← warmGet c key with
      | some v =>
        onlyIf promote (takeUp handle key v)
        pure (some v)
      | none =>
        match ← coldRetrieve c key with
        | some v =>
          onlyIf promote (do takeUp handle key v; warmSet c key v)
          pure (some v)
        | none => pure none

/-- What `demote` does with the value that it has found. -/
def moveDown (c : Parts) (key : String) (value : V) : Code V Unit := do
  onlyIf c.dedup (query (.embed value : Ask V))
  query (.coldStore key value : Ask V)
  query (.remove key : Ask V)
  onlyIf c.warm (query (.warmDelete key : Ask V))

/-- `demote`. Its look at the value evicts nothing. -/
def demote (c : Parts) (key : String) (toTier : Tier) : Code V Unit :=
  onlyIf (decide (toTier = .cold) && c.cold) do
    match ← retrieveWith c (fun _ => pure ()) key false with
    | some v => moveDown c key v
    | none => pure ()

def handleEvictions (c : Parts) : List (String × Tier) → Code V Unit
  | [] => pure ()
  | (key, toTier) :: rest => do
    onlyIf (toTier = .cold) (demote c key .cold)
    handleEvictions c rest

def retrieve (c : Parts) (key : String) (promote : Bool) : Code V (Option V) :=
  retrieveWith c (handleEvictions c) key promote

def store (c : Parts) (key : String) (value : V) : Code V Unit := do
  let evictions ← query (.insert key value : Ask V)
  warmSet c key value
  handleEvictions c evictions

def promote (c : Parts) (key : String) (toTier : Tier) : Code V Unit :=
  onlyIf (toTier = .hot) do
    let _ ← retrieve c key true
    pure ()

/-- The program of a call. Only a retrieve gives a value. -/
def code (c : Parts) : MemoryCall V → Code V (Option V)
  | .store key value => do
    store c key value
    pure none
  | .retrieve key promote => retrieve c key promote
  | .promote key toTier => do
    promote c key toTier
    pure none
  | .demote key toTier => do
    demote c key toTier
    pure none

/-! ## The backends of a manager -/

/-- The manager has the backends that its parts say. -/
structure Has (c : Parts) (m : TieredMemoryManager V) : Prop where
  warm : c.warm = m.warmBackend.isSome
  cold : c.cold = m.coldBackend.isSome

section alone

variable {c : Parts} {m : TieredMemoryManager V}

theorem Has.perform (h : Has c m) (q : Ask V) : Has c (perform m q).1 := by
  obtain ⟨hwarm, hcold⟩ := h
  cases q with
  | lookHot key promote | lookWarm key promote =>
    simp only [tiered_tasks.perform, found]
    split
    · split <;> exact ⟨hwarm, hcold⟩
    · exact ⟨hwarm, hcold⟩
  | warmSet key value | warmDelete key | coldStore key value =>
    exact ⟨by simp [tiered_tasks.perform, TieredMemoryManager.setWarm, hwarm],
      by simp [tiered_tasks.perform, TieredMemoryManager.setWarm, hcold]⟩
  | _ => exact ⟨hwarm, hcold⟩

end alone

end orchestra.tiered_tasks
