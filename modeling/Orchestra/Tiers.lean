-- Tiered memory (`memory/tiers.py`): a segmented cache in the process over a
-- warm and a cold backend, run as a sequence of calls.
import Orchestra.Lib.Dict
import Orchestra.Lib.Machine

open dicts machine

namespace orchestra.tiers

variable {V : Type}

inductive Tier
  | hot
  | warm
  | cold
deriving DecidableEq

/-! ## The policy -/

/-- `SLRUPolicy`. Of an entry only the value is read. -/
structure SLRUPolicy (V : Type) where
  hotMax : Nat
  warmMax : Nat
  hot : Dict String V
  warm : Dict String V

namespace SLRUPolicy

def new (hotMax warmMax : Nat) : SLRUPolicy V := ⟨hotMax, warmMax, .empty, .empty⟩

/-- Move the oldest hot entries to the warm segment until the hot one fits. -/
def coolHot : Nat → SLRUPolicy V → SLRUPolicy V × List (String × Tier)
  | 0, p => (p, [])
  | n + 1, p =>
    if p.hotMax < p.hot.size then
      match p.hot.entries with
      | [] => (p, [])
      | (k, e) :: _ =>
        let rest := coolHot n { p with hot := p.hot.tail, warm := p.warm.set k e }
        (rest.1, (k, .warm) :: rest.2)
    else (p, [])

/-- Drop the oldest warm entries until the warm segment fits. -/
def dropWarm : Nat → SLRUPolicy V → SLRUPolicy V × List (String × Tier)
  | 0, p => (p, [])
  | n + 1, p =>
    if p.warmMax < p.warm.size then
      match p.warm.entries with
      | [] => (p, [])
      | (k, _) :: _ =>
        let rest := dropWarm n { p with warm := p.warm.tail }
        (rest.1, (k, .cold) :: rest.2)
    else (p, [])

/-- The two loops, each with a round for every entry. -/
def evictionsDue (p : SLRUPolicy V) : SLRUPolicy V × List (String × Tier) :=
  let cooled := coolHot p.hot.size p
  let dropped := dropWarm cooled.1.warm.size cooled.1
  (dropped.1, cooled.2 ++ dropped.2)

/-- The tier that `access` returns is left out. -/
def access (p : SLRUPolicy V) (key : String) : SLRUPolicy V × List (String × Tier) :=
  match p.hot.get? key with
  | some entry => ({ p with hot := (p.hot.erase key).set key entry }, [])
  | none =>
    match p.warm.get? key with
    | some entry =>
      evictionsDue { p with warm := p.warm.erase key, hot := p.hot.set key entry }
    | none => (p, [])

def insert (p : SLRUPolicy V) (key : String) (entry : V) : SLRUPolicy V × List (String × Tier) :=
  if (p.hot.get? key).isSome then ({ p with hot := p.hot.set key entry }, [])
  else if (p.warm.get? key).isSome then ({ p with warm := p.warm.set key entry }, [])
  else evictionsDue { p with warm := p.warm.set key entry }

def remove (p : SLRUPolicy V) (key : String) : SLRUPolicy V :=
  { p with hot := p.hot.erase key, warm := p.warm.erase key }

end SLRUPolicy

/-! ## The manager -/

/-- A backend that behaves as a map. -/
def Backend (V : Type) : Type := String → Option V

namespace Backend

def empty : Backend V := fun _ => none

def put (b : Backend V) (key : String) (value : V) : Backend V :=
  fun j => if j = key then some value else b j

def delete (b : Backend V) (key : String) : Backend V := fun j => if j = key then none else b j

end Backend

/-- The backends are none where none is configured. -/
structure TieredMemoryManager (V : Type) where
  warmBackend : Option (Backend V)
  coldBackend : Option (Backend V)
  policy : SLRUPolicy V

namespace TieredMemoryManager

/-- What the backends hold, the warm one first. -/
def below (m : TieredMemoryManager V) (key : String) : Option V :=
  match m.warmBackend.bind (fun b => b key) with
  | some v => some v
  | none => m.coldBackend.bind (fun b => b key)

/-- `retrieve(key, promote=False)`, which changes nothing. -/
def look (m : TieredMemoryManager V) (key : String) : Option V :=
  match m.policy.hot.get? key with
  | some v => some v
  | none =>
    match m.policy.warm.get? key with
    | some v => some v
    | none => m.below key

def demote (m : TieredMemoryManager V) (key : String) (toTier : Tier) : TieredMemoryManager V :=
  match toTier, m.coldBackend with
  | .cold, some b =>
    match m.look key with
    | some v =>
      { warmBackend := m.warmBackend.map (fun w => w.delete key)
        coldBackend := some (b.put key v)
        policy := m.policy.remove key }
    | none => m
  | _, _ => m

def handleEvictions (m : TieredMemoryManager V) (evictions : List (String × Tier)) :
    TieredMemoryManager V :=
  evictions.foldl (fun m e => if e.2 = .cold then m.demote e.1 .cold else m) m

def setWarm (m : TieredMemoryManager V) (key : String) (value : V) : TieredMemoryManager V :=
  { m with warmBackend := m.warmBackend.map (fun w => w.put key value) }

def store (m : TieredMemoryManager V) (key : String) (value : V) : TieredMemoryManager V :=
  let inserted := m.policy.insert key value
  ({ m with policy := inserted.1 }.setWarm key value).handleEvictions inserted.2

/-- A value found in the policy, which counts as an access. -/
def hit (m : TieredMemoryManager V) (key : String) (promote : Bool) : TieredMemoryManager V :=
  if promote then
    let accessed := m.policy.access key
    { m with policy := accessed.1 }.handleEvictions accessed.2
  else m

/-- A value found in a backend goes into the policy. What the access evicts after
that is not handled. -/
def takeUp (m : TieredMemoryManager V) (key : String) (value : V) : TieredMemoryManager V :=
  let inserted := m.policy.insert key value
  let accessed := inserted.1.access key
  { m with policy := accessed.1 }.handleEvictions inserted.2

def retrieve (m : TieredMemoryManager V) (key : String) (promote : Bool) :
    TieredMemoryManager V × Option V :=
  match m.policy.hot.get? key with
  | some v => (m.hit key promote, some v)
  | none =>
    match m.policy.warm.get? key with
    | some v => (m.hit key promote, some v)
    | none =>
      match m.warmBackend.bind (fun b => b key) with
      | some v => (if promote then m.takeUp key v else m, some v)
      | none =>
        match m.coldBackend.bind (fun b => b key) with
        | some v => (if promote then (m.takeUp key v).setWarm key v else m, some v)
        | none => (m, none)

def promote (m : TieredMemoryManager V) (key : String) (toTier : Tier) : TieredMemoryManager V :=
  if toTier = .hot then (m.retrieve key true).1 else m

/-- What a retrieve returns does not depend on whether it promotes. -/
theorem retrieve_value (m : TieredMemoryManager V) (key : String) (promote : Bool) :
    (m.retrieve key promote).2 = m.look key := by
  unfold retrieve look below
  rcases m.policy.hot.get? key with _ | v
  · rcases m.policy.warm.get? key with _ | v
    · rcases m.warmBackend.bind (fun b => b key) with _ | v
      · rcases m.coldBackend.bind (fun b => b key) with _ | v
        · rfl
        · rfl
      · rfl
    · rfl
  · rfl

end TieredMemoryManager

/-! ## Runs of a manager -/

inductive MemoryCall (V : Type)
  | store (key : String) (value : V)
  | retrieve (key : String) (promote : Bool)
  | promote (key : String) (toTier : Tier)
  | demote (key : String) (toTier : Tier)

def call (m : TieredMemoryManager V) : MemoryCall V → TieredMemoryManager V
  | .store key value => m.store key value
  | .retrieve key promote => (m.retrieve key promote).1
  | .promote key toTier => m.promote key toTier
  | .demote key toTier => m.demote key toTier

/-- A manager that `create_tiered_memory` builds: over empty backends. -/
def create (warm cold : Bool) (hotMax warmMax : Nat) : TieredMemoryManager V where
  warmBackend := if warm then some .empty else none
  coldBackend := if cold then some .empty else none
  policy := .new hotMax warmMax

/-- The managers that have a backend. -/
def memory (V : Type) : Machine (TieredMemoryManager V) (MemoryCall V) where
  init m := ∃ warm cold hotMax warmMax, (warm || cold) = true ∧ m = create warm cold hotMax warmMax
  step m c m' := m' = call m c

end orchestra.tiers
