-- A store that several agents share. Each of its cells holds what was written last under
-- one of its keys, by whichever agent. When does each agent read just what it wrote itself?
import Mathlib.Data.List.Basic
import Orchestra.Lib.Machine

open machine

namespace sharing

variable {S A K V L P : Type}

/-! ## Backends and their users -/

/-- What an agent can do with a store. A `store` that raises gives no new state, and a
`retrieve` that raises gives no value. `nothing` is read where nothing is kept. -/
structure Backend (S A K V : Type) where
  init : S
  nothing : V
  store : A → K → V → S → Option S
  retrieve : A → K → S → S × Option V
  delete : A → K → S → S

inductive Op (A K V : Type)
  | store (agent : A) (key : K) (value : V)
  | retrieve (agent : A) (key : K)
  | delete (agent : A) (key : K)

def Op.agent : Op A K V → A
  | .store a _ _ | .retrieve a _ | .delete a _ => a

/-- What a `retrieve` gave, and what the agent itself had kept there. -/
structure Answer (A V : Type) where
  agent : A
  got : Option V
  kept : V
deriving DecidableEq

/-- The store in use. `own` is what each agent has kept under its keys, by its own operations
alone. -/
structure Shared (S A K V : Type) where
  storage : S
  own : A → K → Option V
  answers : List (Answer A V)

variable [DecidableEq A] [DecidableEq K]

def keep (own : A → K → Option V) (a : A) (k : K) (v : Option V) : A → K → Option V :=
  fun b j => if b = a ∧ j = k then v else own b j

variable (B : Backend S A K V)

def Backend.new : Shared S A K V := ⟨B.init, fun _ _ => none, []⟩

def Backend.exec (s : Shared S A K V) : Op A K V → Shared S A K V
  | .store a k v =>
    match B.store a k v s.storage with
    | none => s
    | some t => { s with storage := t, own := keep s.own a k (some v) }
  | .retrieve a k =>
    let (t, got) := B.retrieve a k s.storage
    { s with storage := t, answers := s.answers ++ [⟨a, got, (s.own a k).getD B.nothing⟩] }
  | .delete a k =>
    { s with storage := B.delete a k s.storage, own := keep s.own a k none }

def Backend.execAll (s : Shared S A K V) (ops : List (Op A K V)) : Shared S A K V :=
  ops.foldl B.exec s

/-- The operations of all agents, in any order. -/
def Backend.interleaving : Machine (Shared S A K V) (Op A K V) where
  init s := s = B.new
  step s op t := t = B.exec s op

/-- Each `retrieve` gave what its agent had kept there, and each agent would still get each
of its entries back. -/
structure Separate (s : Shared S A K V) : Prop where
  answers : ∀ x ∈ s.answers, x.got = some x.kept
  intact : ∀ a k v, s.own a k = some v → (B.retrieve a k s.storage).2 = some v

/-- What an agent has read, in its order. -/
def answersOf (a : A) (s : Shared S A K V) : List (Option V) :=
  (s.answers.filter (fun x => x.agent = a)).map (·.got)

/-- No agent notices the others: at every point of the interleaving each has just its own
entries, and it reads what it would read without the others. -/
structure Undisturbed (ops : List (Op A K V)) : Prop where
  separate : Throughout B.interleaving (Separate B) B.new ops
  alone : ∀ a, answersOf a (B.execAll B.new ops) =
    answersOf a (B.execAll B.new (ops.filter (fun op => op.agent = a)))

/-! ## Cells -/

/-- How a backend keeps its entries: in cells, by what an agent writes and reads there. -/
structure Cells (L P : Type) [DecidableEq L] (B : Backend S A K V) where
  cell : S → L → Option P
  place : K → L
  encode : A → V → Option P
  decode : A → P → Option V
  cell_init : ∀ l, cell B.init l = none
  store_none : ∀ a k v s, encode a v = none → B.store a k v s = none
  store_some : ∀ a k v s p, encode a v = some p → ∃ t, B.store a k v s = some t ∧
    ∀ l, cell t l = if place k = l then some p else cell s l
  cell_retrieve : ∀ a k s, cell (B.retrieve a k s).1 = cell s
  retrieve_none : ∀ a k s, cell s (place k) = none → (B.retrieve a k s).2 = some B.nothing
  retrieve_some : ∀ a k s p, cell s (place k) = some p → (B.retrieve a k s).2 = decode a p
  cell_delete : ∀ a k s l, cell (B.delete a k s) l = if place k = l then none else cell s l

variable {B}

theorem keep_self (own : A → K → Option V) (a : A) (k : K) (v : Option V) :
    keep own a k v a k = v := by
  simp [keep]

theorem keep_congr {own other : A → K → Option V} {b : A} {j : K} (h : own b j = other b j)
    (a : A) (k : K) (v : Option V) : keep own a k v b j = keep other a k v b j := by
  unfold keep
  rw [h]

theorem keep_of_ne (own : A → K → Option V) {a b : A} {k j : K} (v : Option V)
    (h : ¬(b = a ∧ j = k)) : keep own a k v b j = own b j := by
  simp [keep, h]

variable [DecidableEq L] (C : Cells L P B)

namespace Cells

omit [DecidableEq A] [DecidableEq K] in
/-- What an agent reads depends on the cell of the key alone. -/
theorem retrieve_congr {s t : S} {a : A} {k : K} (h : C.cell s (C.place k) = C.cell t (C.place k)) :
    (B.retrieve a k s).2 = (B.retrieve a k t).2 := by
  rcases hs : C.cell s (C.place k) with _ | p
  · rw [C.retrieve_none a k s hs, C.retrieve_none a k t (h ▸ hs)]
  · rw [C.retrieve_some a k s p hs, C.retrieve_some a k t p (h ▸ hs)]

/-- The operation finds no entry of another agent or key in its cell, a value that is stored
comes back from what is written of it, and where the agent kept nothing it reads nothing. -/
def Apart (s : Shared S A K V) : Op A K V → Prop
  | .store a k v => ∀ p, C.encode a v = some p → C.decode a p = some v ∧
    ∀ b j w, ¬(b = a ∧ j = k) → C.place j = C.place k → s.own b j = some w →
      C.decode b p = some w
  | .retrieve a k => s.own a k = none → ∀ p, C.cell s.storage (C.place k) = some p →
    C.decode a p = some B.nothing
  | .delete a k => ∀ b j w, ¬(b = a ∧ j = k) → C.place j = C.place k → s.own b j = some w →
    w = B.nothing

variable {C} {s : Shared S A K V}

theorem separate_store_iff (hs : Separate B s) (a : A) (k : K) (v : V) :
    Separate B (B.exec s (.store a k v)) ↔ C.Apart s (.store a k v) := by
  rcases hp : C.encode a v with _ | p
  · have hraise := C.store_none a k v s.storage hp
    simp [Backend.exec, hraise, Apart, hp, hs]
  obtain ⟨t, hstore, hcell⟩ := C.store_some a k v s.storage p hp
  have hexec : B.exec s (.store a k v) =
      { s with storage := t, own := keep s.own a k (some v) } := by
    simp [Backend.exec, hstore]
  have hread : ∀ b j, C.place j = C.place k → (B.retrieve b j t).2 = C.decode b p := by
    intro b j hj
    refine C.retrieve_some b j t p ?_
    rw [hcell, if_pos hj.symm]
  rw [hexec]
  constructor
  · intro ht q hq
    obtain rfl : p = q := Option.some.inj (hp.symm.trans hq)
    refine ⟨?_, fun b j w hne hj hw => ?_⟩
    · rw [← hread a k rfl]
      exact ht.intact a k v (keep_self ..)
    · rw [← hread b j hj]
      exact ht.intact b j w ((keep_of_ne _ _ hne).trans hw)
  · intro hapart
    obtain ⟨hself, hothers⟩ := hapart p hp
    refine ⟨hs.answers, fun b j w hw => ?_⟩
    dsimp only at hw ⊢
    by_cases hbj : b = a ∧ j = k
    · obtain ⟨rfl, rfl⟩ := hbj
      rw [keep_self] at hw
      cases hw
      rw [hread b j rfl]
      exact hself
    · rw [keep_of_ne _ _ hbj] at hw
      by_cases hj : C.place j = C.place k
      · rw [hread b j hj]
        exact hothers b j w hbj hj hw
      · have hsame : C.cell t (C.place j) = C.cell s.storage (C.place j) := by
          rw [hcell, if_neg (fun h => hj h.symm)]
        rw [C.retrieve_congr hsame]
        exact hs.intact b j w hw

omit [DecidableEq L] in
/-- A retrieve that leaves the agents separate gave what the agent had kept. -/
theorem got_of_separate {a : A} {k : K} (h : Separate B (B.exec s (.retrieve a k))) :
    (B.retrieve a k s.storage).2 = some ((s.own a k).getD B.nothing) :=
  h.answers ⟨a, (B.retrieve a k s.storage).2, (s.own a k).getD B.nothing⟩
    (List.mem_append_right _ (List.mem_singleton_self _))

theorem separate_retrieve_iff (hs : Separate B s) (a : A) (k : K) :
    Separate B (B.exec s (.retrieve a k)) ↔ C.Apart s (.retrieve a k) := by
  have hintact : ∀ b j w, s.own b j = some w →
      (B.retrieve b j (B.retrieve a k s.storage).1).2 = some w := by
    intro b j w hw
    rw [C.retrieve_congr (congrFun (C.cell_retrieve a k s.storage) _)]
    exact hs.intact b j w hw
  have hanswers : Separate B (B.exec s (.retrieve a k)) ↔
      (B.retrieve a k s.storage).2 = some ((s.own a k).getD B.nothing) := by
    refine ⟨got_of_separate, fun hright => ⟨fun x hx => ?_, hintact⟩⟩
    rcases List.mem_append.mp hx with hx | hx
    · exact hs.answers x hx
    · rw [List.mem_singleton.mp hx]
      exact hright
  rw [hanswers]
  rcases hown : s.own a k with _ | v
  · rw [Option.getD_none]
    rcases hcell : C.cell s.storage (C.place k) with _ | p
    · simp [Apart, hcell, C.retrieve_none a k _ hcell]
    · simp [Apart, hcell, hown, C.retrieve_some a k _ p hcell]
  · simp [Apart, hown, hs.intact a k v hown]

theorem separate_delete_iff (hs : Separate B s) (a : A) (k : K) :
    Separate B (B.exec s (.delete a k)) ↔ C.Apart s (.delete a k) := by
  have hread : ∀ b j, C.place j = C.place k →
      (B.retrieve b j (B.delete a k s.storage)).2 = some B.nothing := by
    intro b j hj
    refine C.retrieve_none b j _ ?_
    rw [C.cell_delete, if_pos hj.symm]
  constructor
  · intro ht b j w hne hj hw
    have hkept := ht.intact b j w ((keep_of_ne _ _ hne).trans hw)
    have hgone := hread b j hj
    exact Option.some.inj (hkept.symm.trans hgone)
  · intro hapart
    refine ⟨hs.answers, fun b j w hw => ?_⟩
    have hold : keep s.own a k none b j = some w := hw
    by_cases hbj : b = a ∧ j = k
    · obtain ⟨rfl, rfl⟩ := hbj
      rw [keep_self] at hold
      cases hold
    · rw [keep_of_ne _ _ hbj] at hold
      by_cases hj : C.place j = C.place k
      · rw [hapart b j w hbj hj hold]
        exact hread b j hj
      · have hsame : C.cell (B.delete a k s.storage) (C.place j) =
            C.cell s.storage (C.place j) := by
          rw [C.cell_delete, if_neg (fun h => hj h.symm)]
        exact (C.retrieve_congr hsame).trans (hs.intact b j w hold)

/-- An operation keeps the agents separate exactly when it is apart. -/
theorem separate_exec_iff (hs : Separate B s) (op : Op A K V) :
    Separate B (B.exec s op) ↔ C.Apart s op := by
  cases op with
  | store a k v => exact separate_store_iff hs a k v
  | retrieve a k => exact separate_retrieve_iff hs a k
  | delete a k => exact separate_delete_iff hs a k

omit [DecidableEq A] [DecidableEq K] [DecidableEq L] in
theorem separate_new : Separate B (B.new : Shared S A K V) :=
  ⟨by simp [Backend.new], by simp [Backend.new]⟩

/-- The agents are separate all along an interleaving exactly when each of its operations is
apart. -/
theorem separate_iff {ops : List (Op A K V)} (h : Run B.interleaving B.new ops s) :
    Throughout B.interleaving (Separate B) B.new ops ↔
      Run (B.interleaving.restrict C.Apart) B.new ops s := by
  have hdet : ∀ (s : Shared S A K V) op t u, B.interleaving.step s op t →
      B.interleaving.step s op u → t = u := fun s op t u ht hu => ht.trans hu.symm
  refine h.throughout_iff hdet ?_ separate_new
  rintro s op t hs rfl
  exact separate_exec_iff hs op

/-! ## One agent alone -/

/-- `t` is the store as the agent `a` alone would have it beside `s`, where it has company. -/
structure Alone (C : Cells L P B) (a : A) (s t : Shared S A K V) : Prop where
  separate : Separate B t
  same : ∀ k, t.own a k = s.own a k
  only : ∀ b k v, t.own b k = some v → b = a
  filled : ∀ l p, C.cell t.storage l = some p → ∃ k v, C.place k = l ∧ t.own a k = some v
  answers : answersOf a t = answersOf a s

omit [DecidableEq K] in
theorem alone_new (a : A) : Alone C a (B.new : Shared S A K V) B.new := by
  refine ⟨separate_new, fun _ => rfl, by rintro b k v ⟨⟩, ?_, rfl⟩
  intro l p hp
  have hinit : C.cell B.init l = some p := hp
  rw [C.cell_init] at hinit
  cases hinit

/-- The operation of another agent is nothing to the agent alone. -/
theorem alone_other {a : A} {t : Shared S A K V} (h : Alone C a s t) {op : Op A K V}
    (hop : op.agent ≠ a) : Alone C a (B.exec s op) t := by
  have hown : ∀ k, (B.exec s op).own a k = s.own a k := by
    intro k
    cases op with
    | store b j v =>
      simp only [Backend.exec]
      split
      · rfl
      · exact keep_of_ne _ _ (fun hc => hop hc.1.symm)
    | retrieve b j => rfl
    | delete b j => exact keep_of_ne _ _ (fun hc => hop hc.1.symm)
  have hanswers : answersOf a (B.exec s op) = answersOf a s := by
    cases op with
    | store b j v =>
      simp only [Backend.exec]
      split <;> rfl
    | retrieve b j =>
      have hne : ¬b = a := hop
      simp [answersOf, Backend.exec, List.filter_append, hne]
    | delete b j => rfl
  exact ⟨h.separate, fun k => (h.same k).trans (hown k).symm, h.only, h.filled,
    h.answers.trans hanswers.symm⟩

omit [DecidableEq K] in
/-- What is apart among all agents is apart for the agent alone. -/
theorem apart_alone {a : A} {t : Shared S A K V} (hs : Separate B s) (h : Alone C a s t)
    {op : Op A K V} (hop : op.agent = a) (hapart : C.Apart s op) : C.Apart t op := by
  cases op with
  | store b k v =>
    obtain rfl : b = a := hop
    intro p hp
    refine ⟨(hapart p hp).1, fun c j w hne hj hw => ?_⟩
    obtain rfl := h.only c j w hw
    exact (hapart p hp).2 c j w hne hj ((h.same j).symm.trans hw)
  | delete b k =>
    obtain rfl : b = a := hop
    intro c j w hne hj hw
    obtain rfl := h.only c j w hw
    exact hapart c j w hne hj ((h.same j).symm.trans hw)
  | retrieve b k =>
    obtain rfl : b = a := hop
    intro hnone p hp
    -- The cell is that of another key of the agent, which reads the same in both.
    obtain ⟨j, w, hj, hw⟩ := h.filled _ p hp
    have halone := h.separate.intact b j w hw
    have hshared := hs.intact b j w ((h.same j).symm.trans hw)
    rw [← hj] at hp
    rw [C.retrieve_some b j _ p hp] at halone
    rcases hq : C.cell s.storage (C.place k) with _ | q
    · rw [← hj] at hq
      rw [C.retrieve_none b j _ hq] at hshared
      rw [halone, ← hshared]
    · have hread := hapart ((h.same k).symm.trans hnone) q hq
      rw [← hj] at hq
      rw [C.retrieve_some b j _ q hq, hread] at hshared
      rw [halone, ← hshared]

theorem alone_self {a : A} {t : Shared S A K V} (hs : Separate B s) (h : Alone C a s t)
    {op : Op A K V} (hop : op.agent = a) (hapart : C.Apart s op) :
    Alone C a (B.exec s op) (B.exec t op) := by
  have ht := (separate_exec_iff h.separate op).mpr (apart_alone hs h hop hapart)
  have hs' := (separate_exec_iff hs op).mpr hapart
  cases op with
  | store b k v =>
    obtain rfl : b = a := hop
    rcases hp : C.encode b v with _ | p
    · have hraise := fun s => C.store_none b k v s hp
      have hexec : ∀ s : Shared S A K V, B.exec s (.store b k v) = s := fun s => by
        simp [Backend.exec, hraise]
      rw [hexec, hexec]
      exact h
    · obtain ⟨s', hs', -⟩ := C.store_some b k v s.storage p hp
      obtain ⟨t', ht', hcell⟩ := C.store_some b k v t.storage p hp
      simp only [Backend.exec, hs', ht'] at ht ⊢
      refine ⟨ht, fun j => keep_congr (h.same j) b k _, fun c j w hw => ?_, ?_, h.answers⟩
      · by_cases hc : c = b ∧ j = k
        · exact hc.1
        · exact h.only c j w ((keep_of_ne _ _ hc).symm.trans hw)
      · intro l q hq
        dsimp only at hq ⊢
        rw [hcell] at hq
        by_cases hl : C.place k = l
        · exact ⟨k, v, hl, keep_self ..⟩
        · rw [if_neg hl] at hq
          obtain ⟨j, w, hj, hw⟩ := h.filled l q hq
          have hne : ¬(b = b ∧ j = k) := fun hc => hl (hc.2 ▸ hj)
          exact ⟨j, w, hj, (keep_of_ne _ _ hne).trans hw⟩
  | retrieve b k =>
    obtain rfl : b = a := hop
    have hgot := got_of_separate ((separate_exec_iff hs _).mpr hapart)
    have halone := got_of_separate ht
    refine ⟨ht, h.same, h.only, fun l q hq => ?_, ?_⟩
    · have hcell := congrFun (C.cell_retrieve b k t.storage) l
      exact h.filled l q (hcell.symm.trans hq)
    · have hanswers := h.answers
      unfold answersOf at hanswers ⊢
      simp [Backend.exec, List.filter_append, hanswers, hgot, halone, h.same k]
  | delete b k =>
    obtain rfl : b = a := hop
    refine ⟨ht, fun j => keep_congr (h.same j) b k _, fun c j w hw => ?_, ?_, h.answers⟩
    · by_cases hc : c = b ∧ j = k
      · exact hc.1
      · exact h.only c j w ((keep_of_ne _ _ hc).symm.trans hw)
    · intro l q hq
      have hcell := C.cell_delete b k t.storage l
      by_cases hl : C.place k = l
      · rw [if_pos hl] at hcell
        cases hcell.symm.trans hq
      · rw [if_neg hl] at hcell
        obtain ⟨j, w, hj, hw⟩ := h.filled l q (hcell.symm.trans hq)
        have hne : ¬(b = b ∧ j = k) := fun hc => hl (hc.2 ▸ hj)
        exact ⟨j, w, hj, (keep_of_ne _ _ hne).trans hw⟩

theorem alone_run {a : A} {u : Shared S A K V} {ops : List (Op A K V)}
    (h : Run (B.interleaving.restrict C.Apart) s ops u) (hs : Separate B s) {t : Shared S A K V}
    (ht : Alone C a s t) : Alone C a u (B.execAll t (ops.filter (fun op => op.agent = a))) := by
  induction h generalizing t with
  | stay s => exact ht
  | @step s s' u op ops first _ ih =>
    obtain ⟨rfl, hapart⟩ := first
    have hs' := (separate_exec_iff hs op).mpr hapart
    by_cases hop : op.agent = a
    · rw [List.filter_cons, if_pos (decide_eq_true hop)]
      exact ih hs' (alone_self hs ht hop hapart)
    · rw [List.filter_cons, if_neg (by simpa using hop)]
      exact ih hs' (alone_other ht hop)

/-- What an agent reads in an interleaving of apart operations is what it reads when it runs
its own operations alone. -/
theorem answers_alone {ops : List (Op A K V)}
    (h : Run (B.interleaving.restrict C.Apart) B.new ops s) (a : A) :
    answersOf a s = answersOf a (B.execAll B.new (ops.filter (fun op => op.agent = a))) :=
  (alone_run h separate_new (alone_new a)).answers.symm

theorem run_execAll (s : Shared S A K V) (ops : List (Op A K V)) :
    Run B.interleaving s ops (B.execAll s ops) := by
  induction ops generalizing s with
  | nil => exact .stay s
  | cons op rest ih => exact .step rfl (ih (B.exec s op))

theorem undisturbed_iff (C : Cells L P B) (ops : List (Op A K V)) :
    Undisturbed B ops ↔
      Run (B.interleaving.restrict C.Apart) B.new ops (B.execAll B.new ops) := by
  have hiff := separate_iff (C := C) (run_execAll B.new ops)
  constructor
  · intro h
    exact hiff.mp h.separate
  · intro h
    exact ⟨hiff.mpr h, answers_alone h⟩

end Cells

end sharing
