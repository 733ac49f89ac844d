-- What one debit does to the balances. It charges the accounts of its chain one
-- after the other, and under a key and a chain that are plain it charges the
-- tenant and all of its ancestors, each once.
import Orchestra.Budget
import Orchestra.Lib.Machine

open dicts climbs machine orchestra.budget

namespace orchestra.billing

/-! ## Ancestors -/

theorem mem_chain_parent_iff (s : Store) (t a : String) :
    a ∈ chain s.parent (climbFuel s) [] t ↔ Above s.parent t a := by
  have hkeys : ∀ x p, s.parent x = some p → x ∈ s.accounts.keys.toFinset := by
    intro x p h
    rw [List.mem_toFinset]
    exact mem_keys_of_parent h
  apply mem_chain_iff hkeys
  have hcard := List.toFinset_card_le s.accounts.keys
  unfold climbFuel
  omega

instance (s : Store) (t a : String) : Decidable (Above s.parent t a) :=
  decidable_of_iff _ (mem_chain_parent_iff s t a)

theorem forall_above_iff {s : Store} {t : String} {P : String → Prop} :
    (∀ a ∈ chain s.parent (climbFuel s) [] t, P a) ↔ ∀ a, Above s.parent t a → P a := by
  constructor
  · exact fun h a ha => h a ((mem_chain_parent_iff s t a).mpr ha)
  · exact fun h a ha => h a ((mem_chain_parent_iff s t a).mp ha)

instance (s : Store) (t : String) (P : String → Prop) [DecidablePred P] :
    Decidable (∀ a, Above s.parent t a → P a) :=
  decidable_of_iff _ forall_above_iff

/-- Every parent is an account. -/
def WellLinked (s : Store) : Prop := ∀ t p, s.parent t = some p → p ∈ s.accounts.keys

theorem WellLinked.above {s : Store} (h : WellLinked s) {t a : String}
    (ht : t ∈ s.accounts.keys) (ha : Above s.parent t a) : a ∈ s.accounts.keys := by
  induction ha with
  | refl => exact ht
  | tail _ hstep _ => exact h _ _ hstep

theorem above_of_climbsTo {s : Store} {t a : String} (h : Above s.climbsTo t a) :
    Above s.parent t a := by
  induction h with
  | refl => exact .refl
  | tail _ hstep ih => exact ih.tail (climbsTo_eq_some.mp hstep).1

/-- The climb comes to an empty id only where it starts. -/
theorem eq_of_climbsTo_empty {s : Store} {t : String} (h : Above s.climbsTo t "") : t = "" := by
  rcases h.cases_tail with heq | ⟨x, -, hstep⟩
  · exact heq.symm
  · exact absurd rfl (climbsTo_eq_some.mp hstep).2

/-! ## Charging a list of accounts -/

section

variable (sha : String → String) (amount : Int) (period key : String) (now : Date)

def chargeAll (path : List String) (s : Store) : Store :=
  path.foldl (fun u a => charge sha amount period key now a u) s

variable {sha amount period key now}

@[simp] theorem accounts_charge (a : String) (s : Store) :
    (charge sha amount period key now a s).accounts = s.accounts := rfl

theorem spent_charge (t : String) (s : Store) (a p : String) :
    (charge sha amount period key now t s).spent a p =
      s.spent a p + if a = t ∧ p = period then amount else 0 := by
  unfold charge
  rw [Store.spent_addSpent, Store.spent_insertRow]

theorem keyUsed_charge (t : String) (s : Store) (k : String) :
    (charge sha amount period key now t s).keyUsed k ↔
      s.keyUsed k ∨ k = parentIdempotencyKey sha key t period := by
  simp [charge, parentRow]

theorem debits_charge (t : String) (s : Store) :
    (charge sha amount period key now t s).debits = s.debits := by
  simp [charge, Store.debits_insertRow, parentRow]

theorem accounts_chargeAll (path : List String) (s : Store) :
    (chargeAll sha amount period key now path s).accounts = s.accounts := by
  induction path generalizing s with
  | nil => rfl
  | cons t rest ih => exact ih (charge sha amount period key now t s)

theorem debits_chargeAll (path : List String) (s : Store) :
    (chargeAll sha amount period key now path s).debits = s.debits := by
  induction path generalizing s with
  | nil => rfl
  | cons t rest ih => exact (ih (charge sha amount period key now t s)).trans (debits_charge t s)

theorem keyUsed_chargeAll (path : List String) (s : Store) (k : String) :
    (chargeAll sha amount period key now path s).keyUsed k ↔
      s.keyUsed k ∨ ∃ a ∈ path, k = parentIdempotencyKey sha key a period := by
  induction path generalizing s with
  | nil => simp [chargeAll]
  | cons t rest ih =>
    have hstep := ih (charge sha amount period key now t s)
    rw [keyUsed_charge] at hstep
    rw [List.exists_mem_cons_iff, ← or_assoc]
    exact hstep

/-- Accounts that stand in the list once are charged once. -/
theorem spent_chargeAll {path : List String} (hnodup : path.Nodup) (s : Store) (a p : String) :
    (chargeAll sha amount period key now path s).spent a p =
      s.spent a p + if a ∈ path ∧ p = period then amount else 0 := by
  induction path generalizing s with
  | nil => simp [chargeAll]
  | cons t rest ih =>
    obtain ⟨ht, hrest⟩ := List.nodup_cons.mp hnodup
    have hstep := ih hrest (charge sha amount period key now t s)
    rw [spent_charge] at hstep
    refine hstep.trans ?_
    by_cases hat : a = t
    · subst hat
      simp [ht]
    · simp [hat]

/-! ## The climb of a debit -/

/-- A visit that goes on has charged an account within its limit, under a key
that was free. -/
theorem checkAndUpdate_goes {t : String} {s s' : Store}
    (h : checkAndUpdate sha amount period key now t s = .ok (s', true)) :
    s' = charge sha amount period key now t s ∧
      ¬ s.keyUsed (parentIdempotencyKey sha key t period) ∧
      ∃ account, s.accounts.get? t = some account ∧
        s.spent t period + amount ≤ account.limitMicro := by
  unfold checkAndUpdate at h
  rcases hacc : s.accounts.get? t with _ | account
  · simp [hacc] at h
  simp only [hacc] at h
  by_cases hover : account.limitMicro < s.spent t period + amount
  · simp [hover] at h
  by_cases hkey : s.keyUsed (parentIdempotencyKey sha key t period)
  · simp [hover, hkey] at h
  simp only [hover, hkey, if_false, Except.ok.injEq, Prod.mk.injEq, and_true] at h
  exact ⟨h.symm, hkey, account, rfl, by omega⟩

theorem checkAndUpdate_stops {t : String} {s s' : Store}
    (h : checkAndUpdate sha amount period key now t s = .ok (s', false)) :
    s' = s ∧ (s.accounts.get? t = none ∨ s.keyUsed (parentIdempotencyKey sha key t period)) := by
  unfold checkAndUpdate at h
  rcases hacc : s.accounts.get? t with _ | account
  · simp only [hacc, Except.ok.injEq, Prod.mk.injEq, and_true] at h
    exact ⟨h.symm, Or.inl rfl⟩
  simp only [hacc] at h
  by_cases hover : account.limitMicro < s.spent t period + amount
  · simp [hover] at h
  by_cases hkey : s.keyUsed (parentIdempotencyKey sha key t period)
  · simp only [hover, hkey, if_true, if_false, Except.ok.injEq, Prod.mk.injEq, and_true] at h
    exact ⟨h.symm, Or.inr hkey⟩
  · simp [hover, hkey] at h

/-- The accounts that a debit charges: distinct ones above the tenant, with free
keys, up to the top of the chain or to the account that stopped the climb. -/
structure Charges (sha : String → String) (s : Store) (t : String) (amount : Int)
    (period key : String) (now : Date) (s' : Store) (gone : List String) : Prop where
  result : s' = chargeAll sha amount period key now gone s
  nodup : gone.Nodup
  above : ∀ a ∈ gone, Above s.climbsTo t a
  free : ∀ a ∈ gone, ¬ s.keyUsed (parentIdempotencyKey sha key a period)
  ends : Ascent s.climbsTo t gone ∨
    ∃ a, a ∉ gone ∧ Above s.climbsTo t a ∧
      (s.accounts.get? a = none ∨ s'.keyUsed (parentIdempotencyKey sha key a period))

theorem charges_of_ok {s s' : Store} {t : String}
    (h : recursiveCheckAndUpdate sha s t amount period key now = .ok s') :
    ∃ gone, Charges sha s t amount period key now s' gone := by
  obtain ⟨path, hclimb, hnodup, -⟩ := climbs_of_climb h
  let Q : String → Prop := fun a => ¬ s.keyUsed (parentIdempotencyKey sha key a period)
  let P : Store → Prop := fun u => ∀ k, s.keyUsed k → u.keyUsed k
  have hgo : ∀ a u u', P u → checkAndUpdate sha amount period key now a u = .ok (u', true) →
      u' = charge sha amount period key now a u ∧ P u' ∧ Q a := by
    intro a u u' hP hv
    obtain ⟨rfl, hfree, -⟩ := checkAndUpdate_goes hv
    refine ⟨rfl, ?_, fun hused => hfree (hP _ hused)⟩
    intro k hk
    rw [keyUsed_charge]
    exact Or.inl (hP k hk)
  have hstop : ∀ a u u', checkAndUpdate sha amount period key now a u = .ok (u', false) →
      u' = u := fun a u u' hv => (checkAndUpdate_stops hv).1
  obtain ⟨gone, hfold, hfree, hend⟩ := hclimb.folds hgo hstop (fun k hk => hk)
  have habove := hclimb.above
  rcases hend with ⟨rfl, hascent⟩ | ⟨a, rfl, hlast⟩
  · exact ⟨path, hfold, hnodup, habove, hfree, Or.inl hascent⟩
  · obtain ⟨hgone, -, hdisj⟩ := List.nodup_append.mp hnodup
    refine ⟨gone, hfold, hgone, ?_, hfree, Or.inr ⟨a, ?_, ?_, ?_⟩⟩
    · exact fun x hx => habove x (List.mem_append_left _ hx)
    · exact fun ha => hdisj a ha a (List.mem_singleton_self a) rfl
    · exact habove a (by simp)
    · have haccounts : s'.accounts = s.accounts := by
        rw [hfold]
        exact accounts_chargeAll gone s
      rw [← haccounts]
      exact (checkAndUpdate_stops hlast).2

/-- The derived keys of two accounts of one debit are two. -/
theorem parentIdempotencyKey_inj (hsha : Function.Injective sha) {a b : String}
    (h : parentIdempotencyKey sha key a period = parentIdempotencyKey sha key b period) : a = b := by
  unfold parentIdempotencyKey at h
  have htext := hsha ((String.append_right_inj _).mp h)
  simpa using htext

/-- No row has a key that a debit derives on its chain, and no account of the
chain has an empty id for its parent, but where that is the tenant itself. -/
structure Plain (sha : String → String) (s : Store) (t key period : String) : Prop where
  free : ∀ a, Above s.parent t a → ¬ s.keyUsed (parentIdempotencyKey sha key a period)
  named : ∀ a, Above s.parent t a → s.parent a = some "" → t = ""

instance (s : Store) (t : String) : Decidable (Plain sha s t key period) :=
  decidable_of_iff
    ((∀ a, Above s.parent t a → ¬ s.keyUsed (parentIdempotencyKey sha key a period)) ∧
      ∀ a, Above s.parent t a → s.parent a = some "" → t = "")
    ⟨fun h => ⟨h.1, h.2⟩, fun h => ⟨h.free, h.named⟩⟩

/-- Nothing stops a climb along a chain whose accounts get free keys, each its own. -/
theorem Charges.ascent_of_distinct {s s' : Store} {t : String} {gone : List String}
    (h : Charges sha s t amount period key now s' gone) (hlinked : WellLinked s)
    (ht : t ∈ s.accounts.keys)
    (hfree : ∀ a, Above s.parent t a → ¬ s.keyUsed (parentIdempotencyKey sha key a period))
    (hdistinct : ∀ a b, Above s.parent t a → Above s.parent t b →
      parentIdempotencyKey sha key a period = parentIdempotencyKey sha key b period → a = b) :
    Ascent s.climbsTo t gone := by
  rcases h.ends with hascent | ⟨b, hb, hab, hstopped⟩
  · exact hascent
  exfalso
  have hbt := above_of_climbsTo hab
  rcases hstopped with hnone | hused
  · exact (Dict.get?_eq_none_iff _ _).mp hnone (hlinked.above ht hbt)
  · rw [h.result, keyUsed_chargeAll] at hused
    rcases hused with hused | ⟨c, hc, hkey⟩
    · exact hfree b hbt hused
    · rw [hdistinct b c hbt (above_of_climbsTo (h.above c hc)) hkey] at hb
      exact hb hc

/-- Nothing stops a climb along a plain chain. -/
theorem Charges.ascent {s s' : Store} {t : String} {gone : List String}
    (h : Charges sha s t amount period key now s' gone) (hsha : Function.Injective sha)
    (hlinked : WellLinked s) (ht : t ∈ s.accounts.keys) (hplain : Plain sha s t key period) :
    Ascent s.climbsTo t gone :=
  h.ascent_of_distinct hlinked ht hplain.free fun _ _ _ _ => parentIdempotencyKey_inj hsha

/-- A climb along a plain chain charges the whole chain. -/
theorem Charges.all {s s' : Store} {t : String} {gone : List String}
    (h : Charges sha s t amount period key now s' gone) (hsha : Function.Injective sha)
    (hlinked : WellLinked s) (ht : t ∈ s.accounts.keys) (hplain : Plain sha s t key period)
    (a : String) : a ∈ gone ↔ Above s.parent t a := by
  constructor
  · exact fun ha => above_of_climbsTo (h.above a ha)
  intro ha
  have hascent := h.ascent hsha hlinked ht hplain
  apply mem_of_above hascent.head_mem ?_ ha
  intro x hx p hp
  by_cases hempty : p = ""
  · subst hempty
    have hxt := above_of_climbsTo (h.above x hx)
    rw [← hplain.named x hxt hp]
    exact hascent.head_mem
  · exact hascent.closed x hx p (climbsTo_eq_some.mpr ⟨hp, hempty⟩)

/-- A climb that charges the whole chain found a plain one. -/
theorem Charges.plain {s s' : Store} {t : String} {gone : List String}
    (h : Charges sha s t amount period key now s' gone)
    (hall : ∀ a, Above s.parent t a → a ∈ gone) : Plain sha s t key period where
  free a ha := h.free a (hall a ha)
  named a ha hparent := by
    have hempty := hall "" (ha.tail hparent)
    exact eq_of_climbsTo_empty (h.above "" hempty)

/-! ## Counted once -/

/-- The balances of a tenant and of its ancestors have each gone up by the
amount in the period, and no other balance has changed. -/
structure CountedOnce (s s' : Store) (t period : String) (amount : Int) : Prop where
  charged : ∀ a, Above s.parent t a → s'.spent a period = s.spent a period + amount
  others : ∀ a p, ¬ (Above s.parent t a ∧ p = period) → s'.spent a p = s.spent a p

theorem countedOnce_zero (s : Store) (t : String) (period : String) :
    CountedOnce s s t period 0 where
  charged _ _ := (Int.add_zero _).symm
  others _ _ _ := rfl

/-- The balances after a climb that charged exactly the chain. -/
theorem Charges.countedOnce {s s' : Store} {t : String} {gone : List String}
    (h : Charges sha s t amount period key now s' gone)
    (hall : ∀ a, a ∈ gone ↔ Above s.parent t a) : CountedOnce s s' t period amount where
  charged a ha := by
    rw [h.result, spent_chargeAll h.nodup]
    simp [(hall a).mpr ha]
  others a p hne := by
    rw [h.result, spent_chargeAll h.nodup]
    simp [hall, hne]

/-- A climb that charges an amount other than 0 and counts it once charged the
whole chain. -/
theorem Charges.mem_of_countedOnce {s s' : Store} {t : String} {gone : List String}
    (h : Charges sha s t amount period key now s' gone) (hamount : amount ≠ 0)
    (hcounted : CountedOnce s s' t period amount) (a : String) (ha : Above s.parent t a) :
    a ∈ gone := by
  have hspent := hcounted.charged a ha
  rw [h.result, spent_chargeAll h.nodup] at hspent
  by_contra hnot
  simp only [hnot, false_and, if_false] at hspent
  omega

/-! ## The transaction -/

theorem debit_of_keyUsed {s : Store} (hkey : s.keyUsed key) (t : String) (est : Rat)
    (runId model : String) : debit sha s t est runId model key now = .ok s := by
  unfold debit
  rw [if_pos hkey]

theorem debit_of_no_account {s : Store} {t : String} (ht : s.accounts.get? t = none) (est : Rat)
    (runId model : String) : debit sha s t est runId model key now = .ok s := by
  unfold debit
  by_cases hkey : s.keyUsed key
  · rw [if_pos hkey]
  · rw [if_neg hkey, ht]

/-- What a debit of an account under a free key has done when it ends well. -/
theorem debit_ok {s s' : Store} {t : String} {account : Account} {est : Rat} {runId model : String}
    (ht : s.accounts.get? t = some account) (hkey : ¬ s.keyUsed key)
    (h : debit sha s t est runId model key now = .ok s') :
    ∃ u gone,
      recursiveCheckAndUpdate sha s t (usdToMicro est) (getCurrentPeriod now account.resetPeriod)
        key now = .ok u ∧
      Charges sha s t (usdToMicro est) (getCurrentPeriod now account.resetPeriod) key now u gone ∧
      s' = u.insertRow (estimateRow t (usdToMicro est) runId model key now
        (getCurrentPeriod now account.resetPeriod)) := by
  unfold debit at h
  simp only [if_neg hkey, ht] at h
  rcases hclimb : recursiveCheckAndUpdate sha s t (usdToMicro est)
      (getCurrentPeriod now account.resetPeriod) key now with e | u
  · simp [hclimb] at h
  simp only [hclimb] at h
  by_cases hused : u.keyUsed key
  · simp [hused] at h
  simp only [if_neg hused, Except.ok.injEq] at h
  obtain ⟨gone, hgone⟩ := charges_of_ok hclimb
  exact ⟨u, gone, rfl, hgone, h.symm⟩

/-- After a debit of an account that ends well its key is used. -/
theorem keyUsed_of_debit {s s' : Store} {t : String} {est : Rat} {runId model : String}
    (ht : t ∈ s.accounts.keys) (h : debit sha s t est runId model key now = .ok s') :
    s'.keyUsed key := by
  by_cases hkey : s.keyUsed key
  · rw [debit_of_keyUsed hkey] at h
    cases h
    exact hkey
  · obtain ⟨account, hacc⟩ := (Dict.mem_keys_iff _ _).mp ht
    obtain ⟨u, gone, -, -, rfl⟩ := debit_ok hacc hkey h
    rw [Store.keyUsed_insertRow]
    exact Or.inr rfl

/-- A debit counts once exactly when it counts nothing, or its key is free and
its chain plain. -/
theorem debit_countedOnce_iff (hsha : Function.Injective sha) {s s' : Store}
    (hlinked : WellLinked s) {t : String} {account : Account}
    (ht : s.accounts.get? t = some account) {est : Rat} {runId model : String}
    (h : debit sha s t est runId model key now = .ok s') :
    CountedOnce s s' t (getCurrentPeriod now account.resetPeriod) (usdToMicro est) ↔
      usdToMicro est = 0 ∨
        (¬ s.keyUsed key ∧ Plain sha s t key (getCurrentPeriod now account.resetPeriod)) := by
  have hkeys : t ∈ s.accounts.keys := (Dict.mem_keys_iff _ _).mpr ⟨_, ht⟩
  by_cases hkey : s.keyUsed key
  · rw [debit_of_keyUsed hkey] at h
    cases h
    constructor
    · intro hcounted
      have := hcounted.charged t .refl
      left
      omega
    · intro hcase
      rcases hcase with hzero | ⟨hfree, -⟩
      · rw [hzero]
        exact countedOnce_zero s t _
      · exact absurd hkey hfree
  obtain ⟨u, gone, -, hgone, rfl⟩ := debit_ok ht hkey h
  have hsame : ∀ r, CountedOnce s (u.insertRow r) t (getCurrentPeriod now account.resetPeriod)
      (usdToMicro est) ↔ CountedOnce s u t (getCurrentPeriod now account.resetPeriod)
      (usdToMicro est) := by
    intro r
    constructor
    · exact fun hc => ⟨hc.charged, hc.others⟩
    · exact fun hc => ⟨hc.charged, hc.others⟩
  rw [hsame]
  constructor
  · intro hcounted
    by_cases hzero : usdToMicro est = 0
    · exact Or.inl hzero
    · exact Or.inr ⟨hkey, hgone.plain (hgone.mem_of_countedOnce hzero hcounted)⟩
  · intro hcase
    rcases hcase with hzero | ⟨-, hplain⟩
    · have hspent : ∀ a p, u.spent a p = s.spent a p := by
        intro a p
        rw [hgone.result, spent_chargeAll hgone.nodup, hzero]
        simp
      rw [hzero]
      exact ⟨fun a _ => by rw [hspent, Int.add_zero], fun a p _ => hspent a p⟩
    · exact hgone.countedOnce (hgone.all hsha hlinked hkeys hplain)

/-- What a debit leaves behind: one row more, counted once. -/
structure Booked (s s' : Store) (row : LedgerRow) : Prop where
  accounts : s'.accounts = s.accounts
  debits : s'.debits = s.debits ++ [row]
  counted : CountedOnce s s' row.tenantId row.period row.amountMicro

theorem booked_of_debit (hsha : Function.Injective sha) {s s' : Store} (hlinked : WellLinked s)
    {t : String} {account : Account} (ht : s.accounts.get? t = some account)
    (hkey : ¬ s.keyUsed key)
    (hplain : Plain sha s t key (getCurrentPeriod now account.resetPeriod)) {est : Rat}
    {runId model : String} (h : debit sha s t est runId model key now = .ok s') :
    Booked s s' (estimateRow t (usdToMicro est) runId model key now
      (getCurrentPeriod now account.resetPeriod)) := by
  have hcounted := (debit_countedOnce_iff hsha hlinked ht h).mpr (Or.inr ⟨hkey, hplain⟩)
  obtain ⟨u, gone, -, hgone, rfl⟩ := debit_ok ht hkey h
  refine ⟨?_, ?_, hcounted⟩
  · rw [Store.accounts_insertRow, hgone.result, accounts_chargeAll]
  · rw [Store.debits_insertRow, hgone.result, debits_chargeAll]
    rfl

end

/-! ## Runs of the store -/

inductive BudgetCall
  | createAccount (tenantId : String) (parentId : Option String) (limitUsd : Rat)
      (resetPeriod : String) (now : Date)
  | checkAndDebit (tenantId : String) (estimatedUsd : Rat) (runId model key : String) (now : Date)
  | adjustActual (tenantId runId : String) (actualUsd : Rat) (key : String) (now : Date)

/-- One call on the store. A call that raises is rolled back. -/
def transact (sha : String → String) (s : Store) : BudgetCall → Except BudgetError Store
  | .createAccount tenantId parentId limitUsd resetPeriod now =>
    createAccount s tenantId parentId limitUsd resetPeriod now
  | .checkAndDebit tenantId estimatedUsd runId model key now =>
    debit sha s tenantId estimatedUsd runId model key now
  | .adjustActual tenantId runId actualUsd key now =>
    adjustActual s tenantId runId actualUsd key now

def ledger (sha : String → String) : Machine Store BudgetCall where
  init s := s = .empty
  step s call s' := transact sha s call = .ok s'

/-! ## What every call keeps -/

theorem createAccount_ok {s s' : Store} {t : String} {parentId : Option String} {limit : Rat}
    {reset : String} {now : Date} (h : createAccount s t parentId limit reset now = .ok s') :
    s'.accounts = s.accounts.set t ⟨parentId, usdToMicro limit, reset⟩ ∧
      (∀ p, parentId = some p → p ∈ s'.accounts.keys) ∧ s'.ledger = s.ledger ∧
      ∀ a p, s'.spent a p = s.spent a p := by
  unfold createAccount at h
  simp only at h
  split at h
  · rename_i hparent
    cases h
    refine ⟨rfl, ?_, rfl, ?_⟩
    · intro p hp
      subst hp
      rw [Dict.mem_keys_iff, ← Option.isSome_iff_exists]
      simpa using hparent
    · intro a p
      unfold Store.spent
      simp only
      split
      · rfl
      · rename_i hnone
        rw [Dict.get?_set]
        split
        · rename_i heq
          rw [← heq, Option.not_isSome_iff_eq_none.mp hnone]
          rfl
        · rfl
  · cases h

theorem debit_accounts {sha : String → String} {s s' : Store} {t : String} {est : Rat}
    {runId model key : String} {now : Date} (h : debit sha s t est runId model key now = .ok s') :
    s'.accounts = s.accounts := by
  by_cases hkey : s.keyUsed key
  · rw [debit_of_keyUsed hkey] at h
    cases h
    rfl
  rcases hacc : s.accounts.get? t with _ | account
  · rw [debit_of_no_account hacc] at h
    cases h
    rfl
  · obtain ⟨u, gone, -, hgone, rfl⟩ := debit_ok hacc hkey h
    rw [Store.accounts_insertRow, hgone.result, accounts_chargeAll]

theorem keyUsed_of_debit_ok {sha : String → String} {s s' : Store} {t : String} {est : Rat}
    {runId model key : String} {now : Date} (h : debit sha s t est runId model key now = .ok s')
    {k : String} (hk : s.keyUsed k) : s'.keyUsed k := by
  by_cases hkey : s.keyUsed key
  · rw [debit_of_keyUsed hkey] at h
    cases h
    exact hk
  rcases hacc : s.accounts.get? t with _ | account
  · rw [debit_of_no_account hacc] at h
    cases h
    exact hk
  · obtain ⟨u, gone, -, hgone, rfl⟩ := debit_ok hacc hkey h
    rw [Store.keyUsed_insertRow, hgone.result, keyUsed_chargeAll]
    exact Or.inl (Or.inl hk)

/-- A settlement climbs from a store with one row more, and touches balances
only. -/
theorem recursiveUpdateBalance_keeps {s s' : Store} {t period : String} {amount : Int}
    (h : recursiveUpdateBalance s t amount period = .ok s') :
    s'.accounts = s.accounts ∧ s'.ledger = s.ledger := by
  obtain ⟨path, hclimb, -⟩ := climbs_of_climb h
  let P : Store → Prop := fun u => u.accounts = s.accounts ∧ u.ledger = s.ledger
  have hkeep : ∀ a u u' goOn, P u → updateBalance amount period a u = .ok (u', goOn) → P u' := by
    intro a u u' goOn hP hv
    unfold updateBalance updateSpent at hv
    cases hv
    split
    · exact hP
    · exact hP
  exact hclimb.keeps hkeep ⟨rfl, rfl⟩

theorem adjustActual_ok {s s' : Store} {t runId : String} {actual : Rat} {key : String} {now : Date}
    (h : adjustActual s t runId actual key now = .ok s') :
    s' = s ∨ ∃ r, s'.accounts = s.accounts ∧ s'.ledger = s.ledger ++ [r] := by
  unfold adjustActual at h
  rcases hfind : findEstimate s t runId with _ | r
  · simp only [hfind, Except.ok.injEq] at h
    exact Or.inl h.symm
  simp only [hfind] at h
  by_cases hkey : s.keyUsed key
  · simp [hkey] at h
  rw [if_neg hkey] at h
  obtain ⟨haccounts, hledger⟩ := recursiveUpdateBalance_keeps h
  exact Or.inr ⟨_, haccounts, hledger⟩

theorem wellLinked_of_accounts {s s' : Store} (h : s'.accounts = s.accounts) (hs : WellLinked s) :
    WellLinked s' := by
  unfold WellLinked Store.parent at *
  rwa [h]

theorem wellLinked_createAccount {s s' : Store} {t : String} {parentId : Option String}
    {limit : Rat} {reset : String} {now : Date} (hs : WellLinked s)
    (h : createAccount s t parentId limit reset now = .ok s') : WellLinked s' := by
  obtain ⟨haccounts, hparent, -, -⟩ := createAccount_ok h
  intro x p hx
  unfold Store.parent at hx
  rw [haccounts, Dict.get?_set] at hx
  by_cases htx : t = x
  · simp only [htx, if_true, Option.bind_some] at hx
    exact hparent p hx
  · rw [if_neg htx] at hx
    obtain ⟨account, hacc⟩ := (Dict.mem_keys_iff _ _).mp (hs x p hx)
    rw [haccounts, Dict.mem_keys_iff, Dict.get?_set]
    split
    · exact ⟨_, rfl⟩
    · exact ⟨_, hacc⟩

theorem wellLinked_transact {sha : String → String} {s s' : Store} {call : BudgetCall}
    (hs : WellLinked s) (h : transact sha s call = .ok s') : WellLinked s' := by
  cases call with
  | createAccount => exact wellLinked_createAccount hs h
  | checkAndDebit => exact wellLinked_of_accounts (debit_accounts h) hs
  | adjustActual =>
    rcases adjustActual_ok h with rfl | ⟨r, haccounts, -⟩
    · exact hs
    · exact wellLinked_of_accounts haccounts hs

theorem wellLinked_of_reachable {sha : String → String} {s : Store}
    (h : Reachable (ledger sha) s) : WellLinked s := by
  apply h.invariant
  · intro s hs t p hp
    cases hs
    simp [Store.empty, Store.parent] at hp
  · exact fun s call s' hs hstep => wellLinked_transact hs hstep

/-- No row ever leaves the ledger. -/
theorem keyUsed_transact {sha : String → String} {s s' : Store} {call : BudgetCall}
    (h : transact sha s call = .ok s') {k : String} (hk : s.keyUsed k) : s'.keyUsed k := by
  cases call with
  | createAccount =>
    obtain ⟨-, -, hledger, -⟩ := createAccount_ok h
    unfold Store.keyUsed
    rwa [hledger]
  | checkAndDebit => exact keyUsed_of_debit_ok h hk
  | adjustActual =>
    rcases adjustActual_ok h with rfl | ⟨r, -, hledger⟩
    · exact hk
    · obtain ⟨q, hq, hkey⟩ := hk
      refine ⟨q, ?_, hkey⟩
      rw [hledger]
      exact List.mem_append_left _ hq

theorem keyUsed_run {sha : String → String} {s s' : Store} {calls : List BudgetCall}
    (h : Run (ledger sha) s calls s') {k : String} (hk : s.keyUsed k) : s'.keyUsed k := by
  have hkeep : ∀ u call u', u.keyUsed k → (ledger sha).step u call u' → u'.keyUsed k :=
    fun u call u' hu hstep => keyUsed_transact hstep hu
  exact h.invariant hkeep hk

/-! ## New accounts -/

theorem get?_of_new {s s' : Store} {t : String} {account : Account}
    (haccounts : s'.accounts = s.accounts.set t account) (ht : t ∉ s.accounts.keys) {a : String}
    (ha : a ∈ s.accounts.keys) : s'.accounts.get? a = s.accounts.get? a := by
  rw [haccounts]
  apply Dict.get?_set_ne
  intro hta
  rw [hta] at ht
  exact ht ha

/-- A new account is above no old one. -/
theorem above_of_new {s s' : Store} (hlinked : WellLinked s) {t : String} {account : Account}
    (haccounts : s'.accounts = s.accounts.set t account) (ht : t ∉ s.accounts.keys) {x : String}
    (hx : x ∈ s.accounts.keys) (a : String) : Above s'.parent x a ↔ Above s.parent x a := by
  apply above_congr
  intro y hy
  unfold Store.parent
  rw [get?_of_new haccounts ht (hlinked.above hx hy)]

theorem debits_of_ledger {s s' : Store} (h : s'.ledger = s.ledger) : s'.debits = s.debits := by
  unfold Store.debits
  rw [h]

/-! ## A debit is counted exactly once -/

/-- A debit has added its amount once at the tenant and at each ancestor, and
after any later calls a debit under its key changes no balance. -/
structure CountedExactlyOnce (sha : String → String) (s s' : Store) (t key period : String)
    (amount : Int) : Prop where
  counted : CountedOnce s s' t period amount
  repeats : ∀ calls u, Run (ledger sha) s' calls u → ∀ t est runId model now u' left,
    checkAndDebit sha u t est runId model key now = .ok (u', left) → u'.balances = u.balances

theorem debit_of_checkAndDebit {sha : String → String} {s s' : Store} {t : String} {est : Rat}
    {runId model key : String} {now : Date} {left : Rat}
    (h : checkAndDebit sha s t est runId model key now = .ok (s', left)) :
    debit sha s t est runId model key now = .ok s' := by
  unfold checkAndDebit at h
  split at h
  · cases h
  · rename_i hdebit
    cases h
    exact hdebit

/-- A debit that ends well is counted exactly once if and only if it counts
nothing, or no row of the ledger has its key or a key that it derives and no
empty id ends its chain early. -/
theorem debit_counted_exactly_once_iff {sha : String → String} (hsha : Function.Injective sha)
    {s : Store} (hs : Reachable (ledger sha) s) {t : String} {account : Account}
    (ht : s.accounts.get? t = some account) {est : Rat} {runId model key : String} {now : Date}
    {s' : Store} {left : Rat}
    (h : checkAndDebit sha s t est runId model key now = .ok (s', left)) :
    CountedExactlyOnce sha s s' t key (getCurrentPeriod now account.resetPeriod)
        (usdToMicro est) ↔
      usdToMicro est = 0 ∨
        (¬ s.keyUsed key ∧ Plain sha s t key (getCurrentPeriod now account.resetPeriod)) := by
  have hdebit := debit_of_checkAndDebit h
  have hlinked := wellLinked_of_reachable hs
  rw [← debit_countedOnce_iff hsha hlinked ht hdebit]
  constructor
  · exact fun hc => hc.counted
  intro hcounted
  refine ⟨hcounted, ?_⟩
  intro calls u hrun t' est' runId' model' now' u' left' hrepeat
  have hkeys : t ∈ s.accounts.keys := (Dict.mem_keys_iff _ _).mpr ⟨account, ht⟩
  have hused : u.keyUsed key := keyUsed_run hrun (keyUsed_of_debit hkeys hdebit)
  have hback := debit_of_checkAndDebit hrepeat
  rw [debit_of_keyUsed hused] at hback
  cases hback
  rfl

/-- The store after some calls, when none of them raises. -/
def runCalls (sha : String → String) (calls : List BudgetCall) (s : Store) : Option Store :=
  calls.foldlM (fun s call => (transact sha s call).toOption) s

theorem transact_of_toOption {sha : String → String} {s s' : Store} {call : BudgetCall}
    (h : (transact sha s call).toOption = some s') : transact sha s call = .ok s' := by
  rcases hcall : transact sha s call with e | u
  · rw [hcall] at h
    cases h
  · rw [hcall] at h
    cases h
    rfl

theorem run_of_runCalls {sha : String → String} {calls : List BudgetCall} {s s' : Store}
    (h : runCalls sha calls s = some s') : Run (ledger sha) s calls s' :=
  run_of_foldlM (fun _ _ _ => transact_of_toOption) h

/-- The digests of the texts that the calls below derive keys from. -/
def digests : Dict String String where
  entries := [
    ("k|u|t|2024-05", "1567cb9d0f820078fa43fe1cfaaff61746312be80cdef243b62171ff6d6d4dfb"),
    ("k|t|2024-05", "ea6d8f3f3faa1fb1a2ef0d97b11f9327b4831602f29aba95668d8c11242a1012")]
  nodup := by decide

theorem digests_injective : Function.Injective (digestOf digests) :=
  digestOf_injective (by decide) (by decide)

def today : Date := ⟨2024, 5, 3⟩

/-- Two tenants without parents. -/
def opening : List BudgetCall := [
  .createAccount "u|t" none 10 "monthly" today,
  .createAccount "t" none 10 "monthly" today]

def opened : Store := (runCalls (digestOf digests) opening .empty).getD .empty

theorem opened_reachable : Reachable (ledger (digestOf digests)) opened :=
  ⟨.empty, opening, rfl, run_of_runCalls (by decide +kernel)⟩

/-- The first debit of one of them. -/
def billed : Store × Rat :=
  (checkAndDebit (digestOf digests) opened "u|t" 1 "r1" "gpt" "k" today).toOption.getD (.empty, 0)

theorem checkAndDebit_billed :
    checkAndDebit (digestOf digests) opened "u|t" 1 "r1" "gpt" "k" today =
      .ok (billed.1, billed.2) := by
  decide +kernel

theorem a_first_debit_is_counted_once :
    CountedExactlyOnce (digestOf digests) opened billed.1 "u|t" "k"
      (getCurrentPeriod today "monthly") (usdToMicro 1) := by
  have haccount : opened.accounts.get? "u|t" = some ⟨none, 10000000, "monthly"⟩ := by
    decide +kernel
  have hplain : ¬ opened.keyUsed "k" ∧
      Plain (digestOf digests) opened "u|t" "k" (getCurrentPeriod today "monthly") := by
    decide +kernel
  exact (debit_counted_exactly_once_iff digests_injective opened_reachable haccount
    checkAndDebit_billed).mpr (Or.inr hplain)

/-- The debit of the other tenant, under a key of its own that gives the chain
of the first debit. -/
def billedTwice : Store × Rat :=
  (checkAndDebit (digestOf digests) billed.1 "t" 1 "r2" "gpt" "k|u" today).toOption.getD (.empty, 0)

theorem a_second_debit_is_not_counted :
    Function.Injective (digestOf digests) ∧ Reachable (ledger (digestOf digests)) billed.1 ∧
      ¬ billed.1.keyUsed "k|u" ∧
      billed.1.accounts.get? "t" = some ⟨none, 10000000, "monthly"⟩ ∧
      checkAndDebit (digestOf digests) billed.1 "t" 1 "r2" "gpt" "k|u" today = .ok billedTwice ∧
      ¬ CountedExactlyOnce (digestOf digests) billed.1 billedTwice.1 "t" "k|u"
        (getCurrentPeriod today "monthly") (usdToMicro 1) := by
  have hstep : (ledger (digestOf digests)).step opened
      (.checkAndDebit "u|t" 1 "r1" "gpt" "k" today) billed.1 :=
    debit_of_checkAndDebit checkAndDebit_billed
  have hreach := opened_reachable.step hstep
  refine ⟨digests_injective, hreach, by decide +kernel, by decide +kernel, by decide +kernel, ?_⟩
  intro h
  have hcharged := h.counted.charged "t" .refl
  have hnot : billedTwice.1.spent "t" (getCurrentPeriod today "monthly") ≠
      billed.1.spent "t" (getCurrentPeriod today "monthly") + usdToMicro 1 := by
    decide +kernel
  exact hnot hcharged

end orchestra.billing
