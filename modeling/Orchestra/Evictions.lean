-- Tiered memory (`memory/tiers.py`) over backends that may do anything, fail included: which
-- keys leave the policy, and which are passed to `demote`.
import Orchestra.Conservation
import Orchestra.Lib.Stateful
import Orchestra.Values

open dicts stateful orchestra.tiers orchestra.conservation

namespace orchestra.evictions

/-! ## The backends -/

variable {W V E : Type}

/-- `W` is the world that the backends live in. `None` as a value is `none`. -/
structure MemoryBackend (W V : Type) where
  get : String → EStateM Raised W (Option V)
  set : String → Option V → EStateM Raised W Unit
  delete : String → EStateM Raised W Unit

structure ColdTierBackend (W V E : Type) where
  store : String → V → Option E → EStateM Raised W Unit
  retrieve : String → EStateM Raised W (Option V)

/-- The backends of a manager, and the embedding of its deduplicator. -/
structure Backends (W V E : Type) where
  warm : Option (MemoryBackend W V)
  cold : Option (ColdTierBackend W V E)
  embed : Option (V → EStateM Raised W E)

/-! ## The manager -/

/-- The policy and the world, and what a call has done so far: the arguments of `demote`, and
the keys that have left the policy for want of room. -/
structure Memory (W V : Type) where
  policy : SLRUPolicy (Option V)
  world : W
  demoted : List (String × Tier)
  lost : List String

abbrev Act (W V α : Type) := EStateM Raised (Memory W V) α

def onWorld {α : Type} (x : EStateM Raised W α) : Act W V α :=
  zoom (·.world) (fun world m => { m with world }) x

/-- The keys that the policy tracked or was given and does not track after an operation. -/
def gone (p : SLRUPolicy (Option V)) (operation : Operation (Option V)) : List String :=
  (tracked p ++ incoming p operation).filter (fun key => key ∉ tracked (operate p operation).1)

/-- An operation of the policy, which may push keys out. -/
def change (operation : Operation (Option V)) : Act W V (List (String × Tier)) := do
  let m ← get
  modify (fun m => { m with
    policy := (operate m.policy operation).1
    lost := m.lost ++ gone m.policy operation })
  pure (operate m.policy operation).2

def fetchWarm (b : Backends W V E) (key : String) : Act W V (Option V) :=
  match b.warm with
  | some warm => onWorld (warm.get key)
  | none => pure none

def setWarm (b : Backends W V E) (key : String) (value : Option V) : Act W V Unit :=
  match b.warm with
  | some warm => onWorld (warm.set key value)
  | none => pure ()

def deleteWarm (b : Backends W V E) (key : String) : Act W V Unit :=
  match b.warm with
  | some warm => onWorld (warm.delete key)
  | none => pure ()

def fetchCold (b : Backends W V E) (key : String) : Act W V (Option V) :=
  match b.cold with
  | some cold => onWorld (cold.retrieve key)
  | none => pure none

/-- The entry of a key in a segment, the hot one first. -/
def entry? (p : SLRUPolicy (Option V)) (key : String) : Option (Option V) :=
  match p.hot.get? key with
  | some value => some value
  | none => p.warm.get? key

/-- `retrieve(key, promote=False)` -/
def look (b : Backends W V E) (key : String) : Act W V (Option V) := do
  let m ← get
  match entry? m.policy key with
  | some value => pure value
  | none => do
    let value ← fetchWarm b key
    match value with
    | some v => pure (some v)
    | none => fetchCold b key

def embedding (b : Backends W V E) (v : V) : Act W V (Option E) :=
  match b.embed with
  | some embed => some <$> onWorld (embed v)
  | none => pure none

def demote (b : Backends W V E) (key : String) (toTier : Tier) : Act W V Unit := do
  modify (fun m => { m with demoted := m.demoted ++ [(key, toTier)] })
  match toTier, b.cold with
  | .cold, some cold => do
    let value ← look b key
    match value with
    | some v => do
      let vector ← embedding b v
      onWorld (cold.store key v vector)
      modify (fun m => { m with policy := m.policy.remove key })
      deleteWarm b key
    | none => pure ()
  | _, _ => pure ()

/-- Only what goes to the cold tier is demoted. -/
def passOn (b : Backends W V E) (eviction : String × Tier) : Act W V Unit :=
  if eviction.2 = .cold then demote b eviction.1 .cold else pure ()

def handleEvictions (b : Backends W V E) : List (String × Tier) → Act W V Unit
  | [] => pure ()
  | eviction :: rest => do
    passOn b eviction
    handleEvictions b rest

def store (b : Backends W V E) (key : String) (value : Option V) : Act W V Unit := do
  let evictions ← change (.insert key value)
  setWarm b key value
  handleEvictions b evictions

/-- A value found in the policy, which counts as an access. -/
def hit (b : Backends W V E) (key : String) : Act W V Unit := do
  let evictions ← change (.access key)
  handleEvictions b evictions

/-- A value found in a backend goes into the policy. What the access reports is ignored. -/
def takeUp (b : Backends W V E) (key : String) (v : V) : Act W V Unit := do
  let evictions ← change (.insert key (some v))
  let _ ← change (.access key)
  handleEvictions b evictions

/-- A value found in the cold backend goes to the warm one as well. -/
def takeUpBoth (b : Backends W V E) (key : String) (v : V) : Act W V Unit := do
  takeUp b key v
  setWarm b key (some v)

/-- `if promote:` -/
def ifPromoted (promote : Bool) (x : Act W V Unit) : Act W V Unit := if promote then x else pure ()

def retrieve (b : Backends W V E) (key : String) (promote : Bool) : Act W V (Option V) := do
  let m ← get
  match entry? m.policy key with
  | some value => do
    ifPromoted promote (hit b key)
    pure value
  | none => do
    let warm ← fetchWarm b key
    match warm with
    | some v => do
      ifPromoted promote (takeUp b key v)
      pure (some v)
    | none => do
      let cold ← fetchCold b key
      match cold with
      | some v => do
        ifPromoted promote (takeUpBoth b key v)
        pure (some v)
      | none => pure none

/-! ## Runs -/

inductive ManagerCall (V : Type)
  | store (key : String) (value : Option V)
  | retrieve (key : String) (promote : Bool)
  | demote (key : String) (toTier : Tier)

def perform (b : Backends W V E) : ManagerCall V → Act W V Unit
  | .store key value => store b key value
  | .retrieve key promote => do
    let _ ← retrieve b key promote
  | .demote key toTier => demote b key toTier

/-- What a call leaves, whether it returns or raises. -/
def exec (b : Backends W V E) (m : Memory W V) (call : ManagerCall V) : Memory W V :=
  final (perform b call) { m with demoted := [], lost := [] }

/-- A new manager after the calls. -/
def run (b : Backends W V E) (hotMax warmMax : Nat) (world : W) (calls : List (ManagerCall V)) :
    Memory W V :=
  calls.foldl (exec b) ⟨.new hotMax warmMax, world, [], []⟩

/-- Each key that left the policy for want of room was passed to `demote` once. -/
def CarriesOut (m : Memory W V) : Prop := ∀ key ∈ m.lost, m.demoted.count (key, .cold) = 1

/-- The write to the warm backend fails. -/
def WriteFails (b : Backends W V E) (world : W) (key : String) (value : Option V) : Prop :=
  ∃ warm e world', b.warm = some warm ∧ warm.set key value world = .error e world'

/-- The call is a store that pushes a key out of the policy, and its write to the warm
backend fails. -/
def Breaks (b : Backends W V E) (m : Memory W V) (call : ManagerCall V) : Prop :=
  ∃ key value, call = .store key value ∧ gone m.policy (.insert key value) ≠ [] ∧
    WriteFails b m.world key value

/-! ## What an operation pushes out -/

variable {p : SLRUPolicy (Option V)}

/-- A computation that only the world notices. -/
def Quiet {α : Type} (x : Act W V α) : Prop :=
  ∀ m (Q : α → Memory W V → Prop) (F : Raised → Memory W V → Prop),
    (∀ a world, Q a { m with world }) → (∀ e world, F e { m with world }) → Leads x Q F m

variable {α β : Type} {b : Backends W V E} {m : Memory W V} {key : String}

/-- Between two states these keys were passed to `demote`, and none left for want of room. -/
structure Demotes (ks : List (String × Tier)) (m t : Memory W V) : Prop where
  demoted : t.demoted = m.demoted ++ ks
  lost : t.lost = m.lost
  fits : recall.Fits m.policy → recall.Fits t.policy

/-- A policy that fits, and every key that left it passed on. -/
structure Done (m : Memory W V) : Prop where
  fits : recall.Fits m.policy
  carried : CarriesOut m

/-- Keys that left are passed on one by one. -/
theorem Demotes.done {ks : List String} {t : Memory W V} (h : Demotes (ks.map (·, .cold)) m t)
    (hfits : recall.Fits m.policy) (hnone : m.demoted = []) (hlost : m.lost.Perm ks)
    (hnodup : ks.Nodup) : Done t := by
  refine ⟨h.fits hfits, fun key hkey => ?_⟩
  rw [h.lost, hlost.mem_iff] at hkey
  have hpairs : (ks.map (·, Tier.cold)).Nodup :=
    hnodup.map fun x y hxy => (Prod.mk.inj hxy).1
  rw [h.demoted, hnone, List.nil_append]
  exact List.count_eq_one_of_mem hpairs (List.mem_map_of_mem hkey)

/-- A backend that is down. -/
def down : MemoryBackend Unit Nat where
  get _ := pure none
  set _ _ := throw ⟨"ConnectionError", "the backend is down", false⟩
  delete _ := pure ()

end orchestra.evictions
