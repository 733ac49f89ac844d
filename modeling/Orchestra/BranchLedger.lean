-- The costs of the branches of a run in the UI (`lib/branchLedger.ts`). The ledger keeps a stack
-- of the open groups, and beside it the branch that owns each node. A group that is completed
-- leaves the stack, and its nodes stay with their branches.
import Mathlib.Algebra.BigOperators.Group.List.Basic
import Mathlib.Algebra.Order.Ring.Rat
import Orchestra.Lib.Codes
import Orchestra.Lib.Tally

open codes dicts tallies

namespace orchestra.branch_ledger

/-! ## The ledger -/

/-- The events that the ledger looks at, with what it reads of them. -/
inductive AnyEvent
  | parallelStarted (sequence : Nat) (timestamp sourceNode : String) (targetNodes : List String)
  | nodeStarted (nodeId : String)
  | llmCalled (nodeId : String) (costUsd : Rat)
  | parallelCompleted (timestamp : String) (targetNodes : List String)
  | other

structure BranchEntry where
  branchId : String
  nodes : List String
  costUsd : Rat
  startedAt : String
  completedAt : Option String

structure ActiveGroup where
  groupId : String
  declaredNodes : List String
  joinNode : Option String

/-- What the loop over the events carries. The innermost group of the stack stands first. -/
structure Build where
  ledger : Dict String BranchEntry
  nodeOwner : Dict String String
  stack : List ActiveGroup

def groupIdOf (sequence : Nat) : String := "parallel-" ++ toString sequence

def branchIdOf (groupId nodeId : String) : String := groupId ++ "/" ++ nodeId

/-- The name under which no object has an entry of its own: a text that is assigned to it is
dropped. -/
def proto : String := "__proto__"

/-- `nodeOwner[nodeId] = branchId` -/
def setOwner (nodeOwner : Dict String String) (nodeId branchId : String) : Dict String String :=
  if nodeId = proto then nodeOwner else nodeOwner.set nodeId branchId

/-- A branch of a group that starts. -/
def declare (groupId timestamp : String) (b : Build) (nodeId : String) : Build :=
  { b with
    ledger := b.ledger.set (branchIdOf groupId nodeId)
      ⟨branchIdOf groupId nodeId, [nodeId], 0, timestamp, none⟩
    nodeOwner := setOwner b.nodeOwner nodeId (branchIdOf groupId nodeId) }

/-- A branch of a group that is completed. -/
def complete (groupId timestamp : String) (ledger : Dict String BranchEntry) (nodeId : String) :
    Dict String BranchEntry :=
  match ledger.get? (branchIdOf groupId nodeId) with
  | some entry =>
    ledger.set (branchIdOf groupId nodeId) { entry with completedAt := some timestamp }
  | none => ledger

/-- A cost for a node, which goes to the branch that owns it. -/
def charge (b : Build) (nodeId : String) (costUsd : Rat) : Build :=
  match b.nodeOwner.get? nodeId with
  | none => b
  | some branchId =>
    match b.ledger.get? branchId with
    | none => b
    | some entry =>
      { b with
        ledger := b.ledger.set branchId { entry with
          costUsd := entry.costUsd + costUsd
          nodes := if nodeId ∈ entry.nodes then entry.nodes else entry.nodes ++ [nodeId] } }

/-- One turn of the loop of `buildBranchLedger`. -/
def step (graphJoinNodes : String → Option String) (b : Build) : AnyEvent → Build
  | .parallelStarted sequence timestamp sourceNode targetNodes =>
    targetNodes.foldl (declare (groupIdOf sequence) timestamp)
      { b with
        stack := ⟨groupIdOf sequence, targetNodes, graphJoinNodes sourceNode⟩ :: b.stack }
  | .nodeStarted nodeId =>
    match b.stack.find? fun g => nodeId ∈ g.declaredNodes with
    | none => b
    | some group =>
      { b with nodeOwner := setOwner b.nodeOwner nodeId (branchIdOf group.groupId nodeId) }
  | .llmCalled nodeId costUsd => charge b nodeId costUsd
  | .parallelCompleted timestamp targetNodes =>
    match b.stack.find? fun g => g.declaredNodes.any (· ∈ targetNodes) with
    | none => b
    | some group =>
      { b with
        stack := b.stack.eraseP fun g => g.declaredNodes.any (· ∈ targetNodes)
        ledger := group.declaredNodes.foldl (complete group.groupId timestamp) b.ledger }
  | .other => b

/-- The state of the loop after some events. -/
def build (graphJoinNodes : String → Option String) (events : List AnyEvent) : Build :=
  events.foldl (step graphJoinNodes) ⟨.empty, .empty, []⟩

def buildBranchLedger (graphJoinNodes : String → Option String) (events : List AnyEvent) :
    Dict String BranchEntry :=
  (build graphJoinNodes events).ledger

def ledgerTotal (ledger : Dict String BranchEntry) : Rat :=
  (ledger.entries.map fun b => b.2.costUsd).sum

/-! ## Groups of a stream -/

/-- A group that has started. -/
structure Group where
  sequence : Nat
  nodes : List String

/-- What is known of a stream up to a place: the open groups (the innermost first), the nodes that a
completed group declared and no open group has taken since, and the groups so far. -/
structure Watch where
  opened : List Group
  stale : List String
  used : List Nat

def Declares (nodeId : String) (g : Group) : Prop := nodeId ∈ g.nodes

instance (nodeId : String) (g : Group) : Decidable (Declares nodeId g) :=
  inferInstanceAs (Decidable (nodeId ∈ g.nodes))

/-- The branch of the innermost open group that declares the node. -/
def Watch.branchOf (w : Watch) (nodeId : String) : Option String :=
  (w.opened.find? fun g => Declares nodeId g).map fun g =>
    branchIdOf (groupIdOf g.sequence) nodeId

def watch (w : Watch) : AnyEvent → Watch
  | .parallelStarted sequence _ _ targetNodes =>
    ⟨⟨sequence, targetNodes⟩ :: w.opened, w.stale.filter (· ∉ targetNodes), sequence :: w.used⟩
  | .nodeStarted nodeId =>
    if (w.branchOf nodeId).isSome then { w with stale := w.stale.filter (· ≠ nodeId) } else w
  | .parallelCompleted _ _ =>
    match w.opened with
    | [] => w
    | g :: rest => ⟨rest, g.nodes ++ w.stale, w.used⟩
  | .llmCalled .. | .other => w

/-- The event may come next: a group starts under a number of its own, and the innermost open group
is the next to be completed. -/
def Admissible (w : Watch) : AnyEvent → Prop
  | .parallelStarted sequence _ _ _ => sequence ∉ w.used
  | .parallelCompleted _ targetNodes => ∃ g ∈ w.opened.head?, g.nodes = targetNodes
  | _ => True

/-- The groups of the events are well nested. -/
def WellNested (w : Watch) : List AnyEvent → Prop
  | [] => True
  | ev :: events => Admissible w ev ∧ WellNested (watch w ev) events

def noGroups : Watch := ⟨[], [], []⟩

def watchAll (events : List AnyEvent) : Watch := events.foldl watch noGroups

/-- The costs that were incurred inside groups. -/
def insideTotal (w : Watch) : List AnyEvent → Rat
  | [] => 0
  | .llmCalled nodeId costUsd :: events =>
    (if (w.branchOf nodeId).isSome then costUsd else 0) + insideTotal w events
  | ev :: events => insideTotal (watch w ev) events

/-! ## Branches and their costs -/

/-- The cost of a branch, or nothing. -/
def costOf (ledger : Dict String BranchEntry) (branchId : String) : Rat :=
  ((ledger.get? branchId).map (·.costUsd)).getD 0

theorem toList_toString (n : Nat) : (toString n).toList = Nat.toDigits 10 n := String.toList_ofList

theorem slash_not_mem_groupIdOf (sequence : Nat) : '/' ∉ (groupIdOf sequence).toList := by
  unfold groupIdOf
  rw [String.toList_append, List.mem_append, toList_toString]
  rintro (h | h)
  · revert h
    decide
  · exact absurd (Nat.isDigit_of_mem_toDigits (by decide) (by decide) h) (by decide)

/-- A branch is known by the number of its group and by its node. -/
theorem branchIdOf_inj {s t : Nat} {n m : String}
    (h : branchIdOf (groupIdOf s) n = branchIdOf (groupIdOf t) m) : s = t ∧ n = m := by
  have hlist := congrArg String.toList h
  unfold branchIdOf at hlist
  rw [String.toList_append, String.toList_append, String.toList_append, String.toList_append,
    List.append_assoc, List.append_assoc] at hlist
  obtain ⟨hgroup, hnode⟩ := append_stop_inj (slash_not_mem_groupIdOf s)
    (slash_not_mem_groupIdOf t) hlist
  refine ⟨?_, String.toList_inj.mp hnode⟩
  unfold groupIdOf at hgroup
  rw [String.toList_append, String.toList_append] at hgroup
  have hdigits : Nat.toDigits 10 s = Nat.toDigits 10 t := by
    have htexts := List.append_cancel_left hgroup
    rwa [toList_toString, toList_toString] at htexts
  rw [← @Nat.ofDigitChars_ten_toDigits s, hdigits, Nat.ofDigitChars_ten_toDigits]

theorem costOf_set (ledger : Dict String BranchEntry) (branchId other : String)
    (entry : BranchEntry) : costOf (ledger.set branchId entry) other =
      if branchId = other then entry.costUsd else costOf ledger other := by
  unfold costOf
  rw [Dict.get?_set]
  split <;> rfl

theorem total_set (ledger : Dict String BranchEntry) (branchId : String) (entry : BranchEntry) :
    ledgerTotal (ledger.set branchId entry) =
      ledgerTotal ledger + (entry.costUsd - costOf ledger branchId) := by
  refine sum_setEntries BranchEntry.costUsd
    (rfl : BranchEntry.costUsd ⟨branchId, [], 0, "", none⟩ = 0) ledger.entries ?_
  have hold : costOf ledger branchId =
      ((ledger.entries.lookup branchId).getD ⟨branchId, [], 0, "", none⟩).costUsd := by
    unfold costOf Dict.get?
    cases ledger.entries.lookup branchId <;> rfl
  rw [hold, add_sub_cancel]

/-! ## What the turns of the loop do -/

section

variable {groupId timestamp : String} {graphJoinNodes : String → Option String}

theorem stack_declare (nodes : List String) (b : Build) :
    (nodes.foldl (declare groupId timestamp) b).stack = b.stack := by
  induction nodes generalizing b with
  | nil => rfl
  | cons n nodes ih => exact ih _

theorem keys_declare (nodes : List String) (b : Build) (branchId : String) :
    branchId ∈ (nodes.foldl (declare groupId timestamp) b).ledger.keys ↔
      (∃ n ∈ nodes, branchIdOf groupId n = branchId) ∨ branchId ∈ b.ledger.keys := by
  induction nodes generalizing b with
  | nil => simp
  | cons n nodes ih =>
    rw [List.foldl_cons, ih]
    simp only [declare, Dict.mem_keys_set, List.exists_mem_cons_iff]
    rw [or_comm (a := branchIdOf groupId n = branchId), or_assoc, eq_comm (a := branchId)]

theorem get?_setOwner (nodeOwner : Dict String String) (nodeId branchId n : String) :
    (setOwner nodeOwner nodeId branchId).get? n =
      if nodeId = n ∧ n ≠ proto then some branchId else nodeOwner.get? n := by
  unfold setOwner
  by_cases hproto : nodeId = proto
  · subst hproto
    rw [if_pos rfl, if_neg]
    rintro ⟨rfl, hne⟩
    exact hne rfl
  · rw [if_neg hproto, Dict.get?_set]
    by_cases hn : nodeId = n
    · subst hn
      simp [hproto]
    · simp [hn]

theorem owner_declare (nodes : List String) (b : Build) (n : String) :
    (nodes.foldl (declare groupId timestamp) b).nodeOwner.get? n =
      if n ∈ nodes ∧ n ≠ proto then some (branchIdOf groupId n) else b.nodeOwner.get? n := by
  induction nodes generalizing b with
  | nil => simp
  | cons m nodes ih =>
    rw [List.foldl_cons, ih]
    simp only [declare, get?_setOwner]
    by_cases hproto : n = proto
    · simp [hproto]
    · by_cases hm : m = n
      · subst hm
        simp [hproto]
      · simp [hproto, hm, Ne.symm hm]

/-- Branches that have cost nothing so far start without a cost. -/
theorem total_declare (nodes : List String) (b : Build)
    (h : ∀ n ∈ nodes, costOf b.ledger (branchIdOf groupId n) = 0) :
    ledgerTotal (nodes.foldl (declare groupId timestamp) b).ledger = ledgerTotal b.ledger := by
  induction nodes generalizing b with
  | nil => rfl
  | cons n nodes ih =>
    rw [List.foldl_cons, ih]
    · rw [declare, total_set, h n List.mem_cons_self, sub_self, add_zero]
    · intro m hm
      rw [declare, costOf_set, h m (List.mem_cons_of_mem _ hm), ite_self]

/-- The end of a branch changes no cost. -/
theorem costs_complete (groupId timestamp : String) (nodes : List String)
    (ledger : Dict String BranchEntry) :
    (∀ branchId, costOf (nodes.foldl (complete groupId timestamp) ledger) branchId =
        costOf ledger branchId) ∧
      (nodes.foldl (complete groupId timestamp) ledger).keys = ledger.keys ∧
      ledgerTotal (nodes.foldl (complete groupId timestamp) ledger) = ledgerTotal ledger := by
  induction nodes generalizing ledger with
  | nil => exact ⟨fun _ => rfl, rfl, rfl⟩
  | cons n nodes ih =>
    obtain ⟨hcosts, hkeys, htotal⟩ := ih (complete groupId timestamp ledger n)
    rw [List.foldl_cons]
    have hone : (∀ branchId, costOf (complete groupId timestamp ledger n) branchId =
          costOf ledger branchId) ∧
        (complete groupId timestamp ledger n).keys = ledger.keys ∧
        ledgerTotal (complete groupId timestamp ledger n) = ledgerTotal ledger := by
      unfold complete
      rcases hentry : ledger.get? (branchIdOf groupId n) with _ | entry
      · exact ⟨fun _ => rfl, rfl, rfl⟩
      · have hcost : costOf ledger (branchIdOf groupId n) = entry.costUsd := by
          rw [costOf, hentry]
          rfl
        refine ⟨fun branchId => ?_, ?_, ?_⟩
        · rw [costOf_set]
          split
          · rename_i hid
            rw [← hid, hcost]
          · rfl
        · exact Dict.keys_set_of_mem ((ledger.mem_keys_iff _).mpr ⟨entry, hentry⟩) _
        · rw [total_set, hcost, sub_self, add_zero]
    exact ⟨fun branchId => (hcosts branchId).trans (hone.1 branchId), hkeys.trans hone.2.1,
      htotal.trans hone.2.2⟩

end

/-! ## What the loop knows of the groups -/

/-- The groups of a stack that declare a node, with their nodes. -/
def liveStack (stack : List ActiveGroup) : List (String × List String) :=
  (stack.filter fun g => g.declaredNodes ≠ []).map fun g => (g.groupId, g.declaredNodes)

def liveGroups (opened : List Group) : List (String × List String) :=
  (opened.filter fun g => g.nodes ≠ []).map fun g => (groupIdOf g.sequence, g.nodes)

/-- The loop has the open groups on its stack, and knows the owner of each node that is not stale. A
stale node is with a branch of a group that is no longer open. -/
structure Follows (b : Build) (w : Watch) : Prop where
  stack : liveStack b.stack = liveGroups w.opened
  distinct : (w.opened.map (·.sequence)).Nodup
  used : ∀ g ∈ w.opened, g.sequence ∈ w.used
  keys : ∀ branchId ∈ b.ledger.keys, ∃ s ∈ w.used, ∃ n, branchId = branchIdOf (groupIdOf s) n
  branches : ∀ g ∈ w.opened, ∀ n ∈ g.nodes, branchIdOf (groupIdOf g.sequence) n ∈ b.ledger.keys
  unowned : b.nodeOwner.get? proto = none
  settled : ∀ n, n ≠ proto → n ∉ w.stale → b.nodeOwner.get? n = w.branchOf n
  stale : ∀ n, n ≠ proto → n ∈ w.stale → ∃ s ∈ w.used, (∀ g ∈ w.opened, g.sequence ≠ s) ∧
    b.nodeOwner.get? n = some (branchIdOf (groupIdOf s) n) ∧
      branchIdOf (groupIdOf s) n ∈ b.ledger.keys

theorem find_liveStack (stack : List ActiveGroup) {p : List String → Bool} (hp : p [] = false) :
    (stack.find? fun g => p g.declaredNodes).map (fun g => (g.groupId, g.declaredNodes)) =
      (liveStack stack).find? fun g => p g.2 := by
  have hlive : (fun g : ActiveGroup => decide (decide (g.declaredNodes ≠ []) = true ∧
      p g.declaredNodes = true)) = fun g => p g.declaredNodes := by
    funext g
    by_cases hnil : g.declaredNodes = []
    · simp [hnil, hp]
    · simp [hnil]
  unfold liveStack
  rw [List.find?_map, List.find?_filter, Function.comp_def, hlive]

theorem find_liveGroups (opened : List Group) {p : List String → Bool} (hp : p [] = false) :
    (opened.find? fun g => p g.nodes).map (fun g => (groupIdOf g.sequence, g.nodes)) =
      (liveGroups opened).find? fun g => p g.2 := by
  have hlive : (fun g : Group => decide (decide (g.nodes ≠ []) = true ∧ p g.nodes = true)) =
      fun g => p g.nodes := by
    funext g
    by_cases hnil : g.nodes = []
    · simp [hnil, hp]
    · simp [hnil]
  unfold liveGroups
  rw [List.find?_map, List.find?_filter, Function.comp_def, hlive]

variable {b : Build} {w : Watch} {graphJoinNodes : String → Option String}

/-- The group that the loop finds for a node is the innermost open one that declares it. -/
theorem Follows.find (h : Follows b w) (nodeId : String) :
    (b.stack.find? fun g => nodeId ∈ g.declaredNodes).map
      (fun g => branchIdOf g.groupId nodeId) = w.branchOf nodeId := by
  have hsame := (find_liveStack b.stack (p := fun nodes => nodeId ∈ nodes) (by simp)).trans
    ((congrArg _ h.stack).trans
      (find_liveGroups w.opened (p := fun nodes => nodeId ∈ nodes) (by simp)).symm)
  have hid := congrArg (Option.map fun g => branchIdOf g.1 nodeId) hsame
  rw [Option.map_map, Option.map_map] at hid
  exact hid

theorem branchOf_cons (sequence : Nat) (nodes : List String) (opened : List Group)
    (stale stale' : List String) (used used' : List Nat) (n : String) :
    Watch.branchOf ⟨⟨sequence, nodes⟩ :: opened, stale, used⟩ n =
      if n ∈ nodes then some (branchIdOf (groupIdOf sequence) n)
      else Watch.branchOf ⟨opened, stale', used'⟩ n := by
  unfold Watch.branchOf Declares
  rw [List.find?_cons]
  by_cases hn : n ∈ nodes
  · simp [hn]
  · simp [hn]

/-- A branch of a node, where there is one, is that of an open group. -/
theorem branchOf_eq_some {n branchId : String} (h : w.branchOf n = some branchId) :
    ∃ g ∈ w.opened, n ∈ g.nodes ∧ branchId = branchIdOf (groupIdOf g.sequence) n := by
  obtain ⟨g, hfind, rfl⟩ := Option.map_eq_some_iff.mp h
  have hdeclares : Declares n g := by simpa using List.find?_some hfind
  exact ⟨g, List.mem_of_find?_eq_some hfind, hdeclares, rfl⟩

theorem follows_started (h : Follows b w) {sequence : Nat} (hnew : sequence ∉ w.used)
    (timestamp sourceNode : String) (targetNodes : List String) :
    Follows (step graphJoinNodes b (.parallelStarted sequence timestamp sourceNode targetNodes))
      (watch w (.parallelStarted sequence timestamp sourceNode targetNodes)) where
  stack := by
    have hstack := h.stack
    unfold liveStack liveGroups at hstack ⊢
    simp only [step, stack_declare, watch, List.filter_cons]
    split
    · rw [List.map_cons, List.map_cons, hstack]
    · exact hstack
  distinct := by
    refine List.nodup_cons.mpr ⟨fun hmem => ?_, h.distinct⟩
    obtain ⟨g, hg, hseq⟩ := List.mem_map.mp hmem
    have hsame : g.sequence = sequence := hseq
    exact hnew (hsame ▸ h.used g hg)
  used := by
    intro g hg
    rcases List.mem_cons.mp hg with rfl | hg
    · exact List.mem_cons_self
    · exact List.mem_cons_of_mem _ (h.used g hg)
  keys := by
    intro branchId hmem
    rcases (keys_declare _ _ _).mp hmem with ⟨n, -, rfl⟩ | hold
    · exact ⟨sequence, List.mem_cons_self, n, rfl⟩
    · obtain ⟨s, hs, n, rfl⟩ := h.keys branchId hold
      exact ⟨s, List.mem_cons_of_mem _ hs, n, rfl⟩
  branches := by
    intro g hg n hn
    refine (keys_declare _ _ _).mpr ?_
    rcases List.mem_cons.mp hg with rfl | hg
    · exact .inl ⟨n, hn, rfl⟩
    · exact .inr (h.branches g hg n hn)
  unowned := by
    rw [step, owner_declare, if_neg (fun hboth => hboth.2 rfl)]
    exact h.unowned
  settled := by
    intro n hproto hn
    rw [step, owner_declare, watch, branchOf_cons _ _ _ _ w.stale _ w.used]
    by_cases hdeclared : n ∈ targetNodes
    · rw [if_pos ⟨hdeclared, hproto⟩, if_pos hdeclared]
    · rw [if_neg (fun hboth => hdeclared hboth.1), if_neg hdeclared]
      refine h.settled n hproto fun hstale => hn ?_
      exact List.mem_filter.mpr ⟨hstale, by simpa using hdeclared⟩
  stale := by
    intro n hproto hn
    obtain ⟨hstale, hdeclared⟩ := List.mem_filter.mp hn
    have hdeclared : n ∉ targetNodes := by simpa using hdeclared
    obtain ⟨s, hs, hclosed, howner, hkey⟩ := h.stale n hproto hstale
    refine ⟨s, List.mem_cons_of_mem _ hs, ?_, ?_, ?_⟩
    · intro g hg
      rcases List.mem_cons.mp hg with rfl | hg
      · rintro rfl
        exact hnew hs
      · exact hclosed g hg
    · rw [step, owner_declare, if_neg (fun hboth => hdeclared hboth.1)]
      exact howner
    · exact (keys_declare _ _ _).mpr (.inr hkey)

theorem follows_nodeStarted (h : Follows b w) (nodeId : String) :
    Follows (step graphJoinNodes b (.nodeStarted nodeId)) (watch w (.nodeStarted nodeId)) := by
  have hfind := h.find nodeId
  cases hgroup : b.stack.find? fun g => nodeId ∈ g.declaredNodes with
  | none =>
    rw [hgroup] at hfind
    have hnone : w.branchOf nodeId = none := hfind.symm
    simp only [step, hgroup, watch, hnone, Option.isSome_none, Bool.false_eq_true, if_false]
    exact h
  | some group =>
    rw [hgroup] at hfind
    have hsome : w.branchOf nodeId = some (branchIdOf group.groupId nodeId) := hfind.symm
    simp only [step, hgroup, watch, hsome, Option.isSome_some, if_true]
    refine ⟨h.stack, h.distinct, h.used, h.keys, h.branches, ?_, ?_, ?_⟩
    · rw [get?_setOwner, if_neg (fun hboth => hboth.2 rfl)]
      exact h.unowned
    · intro n hproto hn
      rw [get?_setOwner]
      by_cases hnode : nodeId = n
      · subst hnode
        rw [if_pos ⟨rfl, hproto⟩]
        exact hsome.symm
      · rw [if_neg (fun hboth => hnode hboth.1)]
        refine h.settled n hproto fun hstale => hn ?_
        exact List.mem_filter.mpr ⟨hstale, by simpa using Ne.symm hnode⟩
    · intro n hproto hn
      obtain ⟨hstale, hnode⟩ := List.mem_filter.mp hn
      have hnode : ¬ nodeId = n := fun heq => by simp [heq] at hnode
      rw [get?_setOwner, if_neg (fun hboth => hnode hboth.1)]
      exact h.stale n hproto hstale

theorem costOf_eq_zero {ledger : Dict String BranchEntry} {branchId : String}
    (h : branchId ∉ ledger.keys) : costOf ledger branchId = 0 := by
  rw [costOf, (ledger.get?_eq_none_iff branchId).mpr h]
  rfl

/-- A cost goes to the owner of its node, and nothing else changes. -/
theorem charge_cases (b : Build) (nodeId : String) (costUsd : Rat) :
    (charge b nodeId costUsd).nodeOwner = b.nodeOwner ∧
      (charge b nodeId costUsd).stack = b.stack ∧
      (charge b nodeId costUsd).ledger.keys = b.ledger.keys ∧
      ((b.nodeOwner.get? nodeId = none ∧ charge b nodeId costUsd = b) ∨
        ∃ branchId, b.nodeOwner.get? nodeId = some branchId ∧ (branchId ∈ b.ledger.keys →
          (∀ other, costOf (charge b nodeId costUsd).ledger other =
              costOf b.ledger other + if branchId = other then costUsd else 0) ∧
            ledgerTotal (charge b nodeId costUsd).ledger = ledgerTotal b.ledger + costUsd)) := by
  unfold charge
  cases howner : b.nodeOwner.get? nodeId with
  | none => exact ⟨rfl, rfl, rfl, .inl ⟨rfl, rfl⟩⟩
  | some branchId =>
    dsimp only
    cases hentry : b.ledger.get? branchId with
    | none =>
      refine ⟨rfl, rfl, rfl, .inr ⟨branchId, rfl, fun hkey => ?_⟩⟩
      exact absurd hkey ((b.ledger.get?_eq_none_iff branchId).mp hentry)
    | some entry =>
      have hcost : costOf b.ledger branchId = entry.costUsd := by
        rw [costOf, hentry]
        rfl
      have hkey := (b.ledger.mem_keys_iff branchId).mpr ⟨entry, hentry⟩
      refine ⟨rfl, rfl, Dict.keys_set_of_mem hkey _, .inr ⟨branchId, rfl, fun _ => ⟨?_, ?_⟩⟩⟩
      · intro other
        rw [costOf_set]
        split
        · rename_i hid
          rw [← hid, hcost]
        · rw [add_zero]
      · rw [total_set, hcost, add_sub_cancel_left]

theorem follows_charge (h : Follows b w) (nodeId : String) (costUsd : Rat) :
    Follows (charge b nodeId costUsd) w := by
  obtain ⟨howner, hstack, hkeys, -⟩ := charge_cases b nodeId costUsd
  refine ⟨hstack ▸ h.stack, h.distinct, h.used, ?_, ?_, howner ▸ h.unowned, ?_, ?_⟩
  · rw [hkeys]
    exact h.keys
  · rw [hkeys]
    exact h.branches
  · rw [howner]
    exact h.settled
  · rw [howner, hkeys]
    exact h.stale

theorem liveStack_eraseP (stack : List ActiveGroup) {p : List String → Bool} (hp : p [] = false) :
    liveStack (stack.eraseP fun g => p g.declaredNodes) =
      (liveStack stack).eraseP fun g => p g.2 := by
  have hlive : (fun g : ActiveGroup => p g.declaredNodes && decide (g.declaredNodes ≠ [])) =
      fun g => p g.declaredNodes := by
    funext g
    by_cases hnil : g.declaredNodes = []
    · simp [hnil, hp]
    · simp [hnil]
  unfold liveStack
  rw [List.eraseP_map, List.eraseP_filter, Function.comp_def, hlive]

/-- The end of a group takes it from the stack, and changes no cost and no owner. -/
theorem step_completed (graphJoinNodes : String → Option String) (b : Build) (timestamp : String)
    (targetNodes : List String) :
    let t := step graphJoinNodes b (.parallelCompleted timestamp targetNodes)
    t.nodeOwner = b.nodeOwner ∧ t.ledger.keys = b.ledger.keys ∧
      ledgerTotal t.ledger = ledgerTotal b.ledger ∧
        t.stack = b.stack.eraseP fun g => g.declaredNodes.any (· ∈ targetNodes) := by
  dsimp only [step]
  cases hfind : b.stack.find? fun g => g.declaredNodes.any (· ∈ targetNodes) with
  | none => exact ⟨rfl, rfl, rfl, (List.eraseP_of_forall_not (List.find?_eq_none.mp hfind)).symm⟩
  | some group =>
    obtain ⟨-, hkeys, htotal⟩ := costs_complete group.groupId timestamp group.declaredNodes
      b.ledger
    exact ⟨rfl, hkeys, htotal, rfl⟩

theorem follows_completed (h : Follows b w) (timestamp : String) {targetNodes : List String}
    (hnext : Admissible w (.parallelCompleted timestamp targetNodes)) :
    Follows (step graphJoinNodes b (.parallelCompleted timestamp targetNodes))
      (watch w (.parallelCompleted timestamp targetNodes)) := by
  obtain ⟨g, hhead, rfl⟩ := hnext
  obtain ⟨opened, stale, used⟩ := w
  obtain ⟨rest, rfl⟩ := List.head?_eq_some_iff.mp hhead
  obtain ⟨howner, hkeys, -, hstack⟩ := step_completed graphJoinNodes b timestamp g.nodes
  have hdistinct := List.nodup_cons.mp h.distinct
  refine ⟨?_, hdistinct.2, fun g' hg' => h.used g' (List.mem_cons_of_mem _ hg'), ?_, ?_,
    howner ▸ h.unowned, ?_, ?_⟩
  · have herase := liveStack_eraseP b.stack (p := fun nodes => nodes.any (· ∈ g.nodes)) rfl
    rw [hstack, herase, h.stack, watch]
    unfold liveGroups
    rw [List.filter_cons]
    by_cases hnil : g.nodes = []
    · rw [if_neg (by simpa using hnil), hnil]
      exact List.eraseP_of_forall_not (by simp)
    · obtain ⟨n, nodes, hnodes⟩ := List.exists_cons_of_ne_nil hnil
      rw [if_pos (by simpa using hnil), List.map_cons]
      exact List.eraseP_cons_of_pos (by simp [hnodes])
  · rw [hkeys]
    exact h.keys
  · rw [hkeys]
    exact fun g' hg' => h.branches g' (List.mem_cons_of_mem _ hg')
  · intro n hproto hn
    obtain ⟨hnode, hstale⟩ := not_or.mp (mt List.mem_append.mpr hn)
    rw [howner, h.settled n hproto hstale, branchOf_cons _ _ _ _ (g.nodes ++ stale) _ used,
      if_neg hnode]
    rfl
  · intro n hproto hn
    rw [howner, hkeys]
    by_cases hstale : n ∈ stale
    · obtain ⟨s, hs, hclosed, hold⟩ := h.stale n hproto hstale
      exact ⟨s, hs, fun g' hg' => hclosed g' (List.mem_cons_of_mem _ hg'), hold⟩
    · have hnode : n ∈ g.nodes := (List.mem_append.mp hn).resolve_right hstale
      refine ⟨g.sequence, h.used g List.mem_cons_self, ?_, ?_,
        h.branches g List.mem_cons_self n hnode⟩
      · intro g' hg' hsame
        exact hdistinct.1 (List.mem_map.mpr ⟨g', hg', hsame⟩)
      · rw [h.settled n hproto hstale, branchOf_cons _ _ _ _ stale _ used, if_pos hnode]

theorem follows_step (graphJoinNodes : String → Option String) (h : Follows b w) {ev : AnyEvent}
    (hnext : Admissible w ev) : Follows (step graphJoinNodes b ev) (watch w ev) := by
  cases ev with
  | parallelStarted sequence timestamp sourceNode targetNodes =>
    exact follows_started h hnext timestamp sourceNode targetNodes
  | nodeStarted nodeId => exact follows_nodeStarted h nodeId
  | llmCalled nodeId costUsd => exact follows_charge h nodeId costUsd
  | parallelCompleted timestamp targetNodes => exact follows_completed h timestamp hnext
  | other => exact h

theorem follows_start : Follows ⟨.empty, .empty, []⟩ noGroups where
  stack := rfl
  distinct := List.nodup_nil
  used := by simp [noGroups]
  keys := by simp [Dict.empty, Dict.keys]
  branches := by simp [noGroups]
  unowned := rfl
  settled := fun _ _ _ => rfl
  stale := by simp [noGroups]

/-! ## Where the costs go -/

/-- The loop knows the branch of the node: no group that declared it was completed since it was last
taken, and it does not have the name that owns nothing. -/
def Settled (w : Watch) (nodeId : String) : Prop :=
  if nodeId = proto then w.branchOf nodeId = none else nodeId ∉ w.stale

instance (w : Watch) (nodeId : String) : Decidable (Settled w nodeId) :=
  inferInstanceAs
    (Decidable (if nodeId = proto then w.branchOf nodeId = none else nodeId ∉ w.stale))

/-- An owner is a branch of the ledger, and it is the right one for a node that is not stale. -/
theorem Follows.owner (h : Follows b w) {n branchId : String}
    (howner : b.nodeOwner.get? n = some branchId) :
    n ≠ proto ∧ branchId ∈ b.ledger.keys ∧ (w.branchOf n = some branchId ↔ n ∉ w.stale) := by
  have hproto : n ≠ proto := by
    rintro rfl
    rw [h.unowned] at howner
    cases howner
  by_cases hstale : n ∈ w.stale
  · obtain ⟨s, -, hclosed, hs, hkey⟩ := h.stale n hproto hstale
    obtain rfl := Option.some.inj (howner.symm.trans hs)
    refine ⟨hproto, hkey, iff_of_false (fun hbranch => ?_) (not_not.mpr hstale)⟩
    obtain ⟨g, hg, -, hsame⟩ := branchOf_eq_some hbranch
    exact hclosed g hg (branchIdOf_inj hsame).1.symm
  · have hbranch := (h.settled n hproto hstale).symm.trans howner
    obtain ⟨g, hg, hn, rfl⟩ := branchOf_eq_some hbranch
    exact ⟨hproto, h.branches g hg n hn, iff_of_true hbranch hstale⟩

theorem Follows.unsettled (h : Follows b w) {n : String} (howner : b.nodeOwner.get? n = none) :
    Settled w n ↔ w.branchOf n = none := by
  unfold Settled
  by_cases hproto : n = proto
  · rw [if_pos hproto]
  · rw [if_neg hproto]
    have hfresh : n ∉ w.stale := by
      intro hstale
      obtain ⟨s, -, -, hs, -⟩ := h.stale n hproto hstale
      rw [howner] at hs
      cases hs
    exact iff_of_true hfresh ((h.settled n hproto hfresh).symm.trans howner)

/-- A cost goes to the branch of its node, or to none, exactly when the loop knows the branch. -/
theorem charge_exact_iff (h : Follows b w) (n : String) (costUsd : Rat) :
    (∀ branchId, costOf (charge b n costUsd).ledger branchId = costOf b.ledger branchId +
        if w.branchOf n = some branchId then costUsd else 0) ↔
      costUsd = 0 ∨ Settled w n := by
  obtain ⟨-, -, -, ⟨hnone, hsame⟩ | ⟨branchId, howner, hcosts⟩⟩ := charge_cases b n costUsd
  · rw [hsame, h.unsettled hnone]
    cases hbranch : w.branchOf n with
    | none => simp
    | some branchId =>
      simp only [left_eq_add, reduceCtorEq, or_false]
      constructor
      · intro hall
        simpa using hall branchId
      · rintro rfl _
        rw [ite_self]
  · obtain ⟨hproto, hkey, hright⟩ := h.owner howner
    have hcosts := (hcosts hkey).1
    rw [Settled, if_neg hproto, ← hright]
    constructor
    · intro hall
      by_cases hbranch : w.branchOf n = some branchId
      · exact .inr hbranch
      · have hone := (hcosts branchId).symm.trans (hall branchId)
        rw [if_pos rfl, if_neg hbranch] at hone
        exact .inl (add_left_cancel hone)
    · rintro (rfl | hbranch) other
      · rw [hcosts, ite_self, ite_self]
      · rw [hcosts, hbranch]
        simp only [Option.some.injEq]

theorem charge_total (h : Follows b w) {n : String} {costUsd : Rat}
    (hsettled : costUsd = 0 ∨ Settled w n) :
    ledgerTotal (charge b n costUsd).ledger =
      ledgerTotal b.ledger + if (w.branchOf n).isSome then costUsd else 0 := by
  obtain ⟨-, -, -, ⟨hnone, hsame⟩ | ⟨branchId, howner, hcosts⟩⟩ := charge_cases b n costUsd
  · rw [hsame]
    rcases hsettled with rfl | hsettled
    · rw [ite_self, add_zero]
    · rw [(h.unsettled hnone).mp hsettled]
      simp
  · obtain ⟨hproto, hkey, hright⟩ := h.owner howner
    rw [(hcosts hkey).2]
    rcases hsettled with rfl | hsettled
    · rw [ite_self]
    · rw [Settled, if_neg hproto] at hsettled
      rw [hright.mpr hsettled]
      rfl

/-- The events that are no costs leave the total as it is. -/
theorem total_started (h : Follows b w) {sequence : Nat} (hnew : sequence ∉ w.used)
    (timestamp sourceNode : String) (targetNodes : List String) :
    ledgerTotal (step graphJoinNodes b
      (.parallelStarted sequence timestamp sourceNode targetNodes)).ledger =
        ledgerTotal b.ledger := by
  rw [step, total_declare]
  intro n _
  refine costOf_eq_zero fun hkey => ?_
  obtain ⟨s, hs, m, hsame⟩ := h.keys _ hkey
  exact hnew ((branchIdOf_inj hsame).1 ▸ hs)

theorem ledger_nodeStarted (b : Build) (nodeId : String) :
    (step graphJoinNodes b (.nodeStarted nodeId)).ledger = b.ledger := by
  rw [step]
  split <;> rfl

theorem follows_run (graphJoinNodes : String → Option String) {pre post : List AnyEvent}
    (h : Follows b w) (hnested : WellNested w (pre ++ post)) :
    Follows (pre.foldl (step graphJoinNodes) b) (pre.foldl watch w) := by
  induction pre generalizing b w with
  | nil => exact h
  | cons ev pre ih => exact ih (follows_step graphJoinNodes h hnested.1) hnested.2

/-- The total is the sum of the costs inside groups, when each cost is settled. -/
theorem total_run (graphJoinNodes : String → Option String) {events : List AnyEvent}
    (h : Follows b w) (hnested : WellNested w events)
    (hsettled : ∀ pre n costUsd post, events = pre ++ .llmCalled n costUsd :: post →
      costUsd = 0 ∨ Settled (pre.foldl watch w) n) :
    ledgerTotal (events.foldl (step graphJoinNodes) b).ledger =
      ledgerTotal b.ledger + insideTotal w events := by
  induction events generalizing b w with
  | nil => exact (add_zero _).symm
  | cons ev events ih =>
    have hrest := ih (follows_step graphJoinNodes h hnested.1) hnested.2
      fun pre n costUsd post heq => hsettled (ev :: pre) n costUsd post (by rw [heq]; rfl)
    rw [List.foldl_cons, hrest]
    cases ev with
    | parallelStarted sequence timestamp sourceNode targetNodes =>
      rw [total_started h hnested.1, insideTotal]
      exact fun _ _ heq => by cases heq
    | nodeStarted nodeId =>
      rw [ledger_nodeStarted, insideTotal]
      exact fun _ _ heq => by cases heq
    | llmCalled nodeId costUsd =>
      have htotal := charge_total h (hsettled [] nodeId costUsd events rfl)
      rw [step, htotal, insideTotal, watch, add_assoc]
    | parallelCompleted timestamp targetNodes =>
      rw [(step_completed graphJoinNodes b timestamp targetNodes).2.2.1, insideTotal]
      exact fun _ _ heq => by cases heq
    | other =>
      rw [step, insideTotal]
      exact fun _ _ heq => by cases heq

/-- Each cost of the stream is added to the branch of the innermost open group that declares its
node, and to no other, and the total is the sum of the costs inside groups. -/
structure ExactAttribution (graphJoinNodes : String → Option String) (events : List AnyEvent) :
    Prop where
  costs : ∀ pre nodeId costUsd post, events = pre ++ .llmCalled nodeId costUsd :: post →
    ∀ branchId, costOf (buildBranchLedger graphJoinNodes (pre ++ [.llmCalled nodeId costUsd]))
        branchId = costOf (buildBranchLedger graphJoinNodes pre) branchId +
      if (watchAll pre).branchOf nodeId = some branchId then costUsd else 0
  total : ledgerTotal (buildBranchLedger graphJoinNodes events) = insideTotal noGroups events

/-- A node runs in a group, and once more after the end of the group. -/
def reused : List AnyEvent :=
  [.parallelStarted 1 "00:00" "fan" ["a"], .nodeStarted "a", .llmCalled "a" 1,
    .parallelCompleted "00:01" ["a"], .nodeStarted "a", .llmCalled "a" 2]

/-- The second run of the node is charged to the group that has ended. -/
theorem a_reused_node_stays_with_its_branch :
    WellNested noGroups reused ∧
      ledgerTotal (buildBranchLedger (fun _ => none) reused) = 3 ∧
        insideTotal noGroups reused = 1 := by
  refine ⟨⟨by simp [Admissible, noGroups], trivial, trivial, ⟨_, rfl, rfl⟩, trivial, trivial,
      trivial⟩,
    ?_, ?_⟩
  · decide +kernel
  · decide +kernel

/-- In a well-nested stream the attribution is exact if and only if at each cost the branch of the
node is settled. -/
theorem branch_costs_are_exact_iff (graphJoinNodes : String → Option String)
    {events : List AnyEvent} (hnested : WellNested noGroups events) :
    ExactAttribution graphJoinNodes events ↔
      ∀ pre nodeId costUsd post, events = pre ++ .llmCalled nodeId costUsd :: post →
        costUsd = 0 ∨ Settled (watchAll pre) nodeId := by
  have hstep : ∀ pre nodeId costUsd post, events = pre ++ .llmCalled nodeId costUsd :: post →
      ((∀ branchId, costOf (buildBranchLedger graphJoinNodes (pre ++ [.llmCalled nodeId costUsd]))
        branchId = costOf (buildBranchLedger graphJoinNodes pre) branchId +
          if (watchAll pre).branchOf nodeId = some branchId then costUsd else 0) ↔
        costUsd = 0 ∨ Settled (watchAll pre) nodeId) := by
    intro pre nodeId costUsd post heq
    have hfollows : Follows (build graphJoinNodes pre) (watchAll pre) :=
      follows_run graphJoinNodes follows_start (heq ▸ hnested)
    have hlast : buildBranchLedger graphJoinNodes (pre ++ [.llmCalled nodeId costUsd]) =
        (charge (build graphJoinNodes pre) nodeId costUsd).ledger := by
      rw [buildBranchLedger, build, List.foldl_append]
      rfl
    rw [hlast]
    exact charge_exact_iff hfollows nodeId costUsd
  constructor
  · intro h pre nodeId costUsd post heq
    exact (hstep pre nodeId costUsd post heq).mp (h.costs pre nodeId costUsd post heq)
  · intro h
    refine ⟨fun pre nodeId costUsd post heq =>
      (hstep pre nodeId costUsd post heq).mpr (h pre nodeId costUsd post heq), ?_⟩
    have htotal := total_run graphJoinNodes follows_start hnested h
    rw [buildBranchLedger, build, htotal]
    exact zero_add _

def single : List AnyEvent :=
  [.parallelStarted 1 "00:00" "fan" ["a"], .llmCalled "a" 1, .parallelCompleted "00:01" ["a"]]

theorem a_single_branch_is_exact : ExactAttribution (fun _ => none) single := by
  have hnested : WellNested noGroups single :=
    ⟨by simp [Admissible, noGroups], trivial, ⟨_, rfl, rfl⟩, trivial⟩
  refine (branch_costs_are_exact_iff _ hnested).mpr ?_
  intro pre nodeId costUsd post heq
  rcases pre with _ | ⟨e, _ | ⟨f, _ | ⟨g, pre⟩⟩⟩
  · cases heq
  · obtain ⟨rfl, hrest⟩ := List.cons.inj heq
    obtain ⟨hcall, -⟩ := List.cons.inj hrest
    cases hcall
    exact .inr (by decide)
  · obtain ⟨-, hrest⟩ := List.cons.inj heq
    cases (List.cons.inj hrest).2
  · simp [single] at heq

end orchestra.branch_ledger
