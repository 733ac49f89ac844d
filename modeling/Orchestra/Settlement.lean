-- Settlements: each reservation is finalized once with what the run really cost.
-- The estimate is looked up by tenant and run, so reservations of one run of a
-- tenant are settled exactly as long as they all look the same.
import Orchestra.Billing

open dicts climbs machine orchestra.budget orchestra.billing

namespace orchestra.settlement

/-! ## Climbing with an update -/

def HasBalance (s : Store) (a p : String) : Prop := (s.balances.get? (a, p)).isSome = true

theorem hasBalance_addSpent {s : Store} {t q a p : String} {n : Int} :
    HasBalance (s.addSpent t q n) a p ↔ HasBalance s a p ∨ (a = t ∧ p = q) := by
  unfold HasBalance Store.addSpent
  rw [Dict.get?_set]
  by_cases h : (t, q) = (a, p)
  · cases h
    simp
  · have hne : ¬ (a = t ∧ p = q) := by
      intro hc
      obtain ⟨rfl, rfl⟩ := hc
      exact h rfl
    simp [h, hne]

instance (s : Store) (a p : String) : Decidable (HasBalance s a p) :=
  inferInstanceAs (Decidable (_ = true))

/-- An update makes no row. -/
theorem hasBalance_updateSpent {s : Store} {t q a p : String} {n : Int} :
    HasBalance (updateSpent s t q n) a p ↔ HasBalance s a p := by
  unfold updateSpent
  split
  · rename_i hbalance
    rw [hasBalance_addSpent]
    constructor
    · rintro (h | ⟨rfl, rfl⟩)
      · exact h
      · exact hbalance
    · exact Or.inl
  · rfl

theorem spent_updateSpent (s : Store) (t q : String) (n : Int) (a p : String) :
    (updateSpent s t q n).spent a p =
      s.spent a p + if a = t ∧ p = q ∧ HasBalance s a p then n else 0 := by
  unfold updateSpent
  split
  · rename_i hbalance
    rw [Store.spent_addSpent]
    by_cases h : a = t ∧ p = q
    · obtain ⟨rfl, rfl⟩ := h
      have hrow : HasBalance s a p := hbalance
      simp [hrow]
    · have hne : ¬(a = t ∧ p = q ∧ HasBalance s a p) := fun hc => h ⟨hc.1, hc.2.1⟩
      rw [if_neg h, if_neg hne]
  · rename_i hnone
    have hne : ¬(a = t ∧ p = q ∧ HasBalance s a p) := by
      rintro ⟨rfl, rfl, hrow⟩
      exact hnone hrow
    rw [if_neg hne, Int.add_zero]

def updateAll (amount : Int) (period : String) (path : List String) (s : Store) : Store :=
  path.foldl (fun u a => updateSpent u a period amount) s

theorem hasBalance_updateAll {amount : Int} {period : String} {path : List String} {s : Store}
    {a p : String} : HasBalance (updateAll amount period path s) a p ↔ HasBalance s a p := by
  induction path generalizing s with
  | nil => rfl
  | cons t rest ih => exact (ih (s := updateSpent s t period amount)).trans hasBalance_updateSpent

/-- Accounts that stand in the list once are updated once, where they have a balance. -/
theorem spent_updateAll {amount : Int} {period : String} {path : List String}
    (hnodup : path.Nodup) (s : Store) (a p : String) :
    (updateAll amount period path s).spent a p =
      s.spent a p + if a ∈ path ∧ p = period ∧ HasBalance s a p then amount else 0 := by
  induction path generalizing s with
  | nil => simp [updateAll]
  | cons t rest ih =>
    obtain ⟨ht, hrest⟩ := List.nodup_cons.mp hnodup
    have hstep := ih hrest (updateSpent s t period amount)
    simp only [spent_updateSpent, hasBalance_updateSpent] at hstep
    refine hstep.trans ?_
    by_cases hat : a = t
    · subst hat
      simp [ht]
    · simp [hat]

/-- A climb to the top that meets nothing twice ends well. -/
theorem recursiveUpdateBalance_of_ascent {s : Store} {t period : String} {amount : Int}
    {path : List String} (hascent : Ascent s.climbsTo t path) (hnodup : path.Nodup)
    (hkeys : ∀ a ∈ path, a ∈ s.accounts.keys) :
    recursiveUpdateBalance s t amount period = .ok (updateAll amount period path s) := by
  have hvisit : ∀ a u, updateBalance amount period a u =
      .ok (updateSpent u a period amount, true) := fun a u => rfl
  have hclimb := climbs_of_ascent hvisit hascent s
  apply climb_of_climbs hclimb hnodup
  · have hle := hnodup.length_le_of_subset hkeys
    unfold climbFuel
    omega
  · simp

theorem hasBalance_chargeAll {sha : String → String} {amount : Int} {period key : String}
    {now : Date} {path : List String} {s : Store} {a p : String}
    (h : HasBalance s a p ∨ (a ∈ path ∧ p = period)) :
    HasBalance (chargeAll sha amount period key now path s) a p := by
  induction path generalizing s with
  | nil =>
    rcases h with h | ⟨hmem, -⟩
    · exact h
    · cases hmem
  | cons t rest ih =>
    apply ih
    have hstep : HasBalance (charge sha amount period key now t s) a p ↔
        HasBalance s a p ∨ (a = t ∧ p = period) := hasBalance_addSpent
    rw [hstep, or_assoc, ← or_and_right]
    rwa [List.mem_cons] at h

/-! ## The desk -/

/-- A reservation that a caller made, and what it was settled with. -/
structure Reservation where
  tenantId : String
  runId : String
  estMicro : Int
  period : String
  settled : Option Int
deriving DecidableEq

/-- The store, the reservations made so far, and the keys that callers used. -/
structure Desk where
  store : Store
  reservations : List Reservation
  keys : List String
deriving DecidableEq

inductive DeskCall
  | createAccount (tenantId : String) (parentId : Option String) (limitUsd : Rat)
      (resetPeriod : String) (now : Date)
  | reserve (tenantId : String) (estimatedCost : Rat) (runId model key : String) (now : Date)
  | finalize (index : Nat) (actualCost : Rat) (key : String) (now : Date)

def reserved (tenantId : String) (account : Account) (estimatedCost : Rat) (runId : String)
    (now : Date) : Reservation :=
  ⟨tenantId, runId, usdToMicro estimatedCost, getCurrentPeriod now account.resetPeriod, none⟩

/-- The store after a settlement. One that raises is rolled back. -/
def settledStore (s : Store) (r : Reservation) (actualCost : Rat) (key : String) (now : Date) :
    Store :=
  match finalize s r.tenantId r.runId actualCost key now with
  | .ok s' => s'
  | .error _ => s

/-- One call. Accounts are not changed once they are there, a reservation that
raises is none, keys are used once, and a reservation is finalized once. -/
def deskStep (sha : String → String) (d : Desk) : DeskCall → Option Desk
  | .createAccount tenantId parentId limitUsd resetPeriod now =>
    if tenantId ∈ d.store.accounts.keys then none
    else
      match createAccount d.store tenantId parentId limitUsd resetPeriod now with
      | .error _ => none
      | .ok s' => some { d with store := s' }
  | .reserve tenantId estimatedCost runId model key now =>
    if key ∈ d.keys then none
    else
      match d.store.accounts.get? tenantId,
          reserve sha d.store tenantId estimatedCost runId model key now with
      | some account, .ok (s', _) => some {
          store := s'
          reservations := d.reservations ++ [reserved tenantId account estimatedCost runId now]
          keys := key :: d.keys }
      | _, _ => none
  | .finalize index actualCost key now =>
    if key ∈ d.keys then none
    else
      match d.reservations[index]? with
      | none => none
      | some r =>
        if r.settled.isSome then none
        else some {
          store := settledStore d.store r actualCost key now
          reservations :=
            d.reservations.set index { r with settled := some (usdToMicro actualCost) }
          keys := key :: d.keys }

def desk (sha : String → String) : Machine Desk DeskCall where
  init d := d = ⟨.empty, [], []⟩
  step d call d' := deskStep sha d call = some d'

/-- What the reservations of an account and of its descendants come to in a
period, each at its value. -/
def sumAt (d : Desk) (a p : String) (value : Reservation → Int) : Int :=
  (d.reservations.map fun r =>
    if Above d.store.parent r.tenantId a ∧ r.period = p then value r else 0).sum

/-- Once all reservations are settled, each balance is the sum of the actual
costs that are booked there. -/
def SettledExactly (d : Desk) : Prop :=
  (∀ r ∈ d.reservations, r.settled.isSome = true) →
    ∀ a p, d.store.spent a p = sumAt d a p fun r => r.settled.getD 0

/-! ## Reservations that can be told apart or need not be -/

/-- No ledger row has the key or one derived from it, the chain is plain, and the
reservations of the same run of the tenant have the same estimate and period. -/
def Settles (sha : String → String) (d : Desk) : DeskCall → Prop
  | .createAccount .. => True
  | .reserve tenantId estimatedCost runId _ key now =>
    ¬ d.store.keyUsed key ∧ ∀ account ∈ d.store.accounts.get? tenantId,
      Plain sha d.store tenantId key (getCurrentPeriod now account.resetPeriod) ∧
        ∀ r ∈ d.reservations, r.tenantId = tenantId → r.runId = runId →
          r.estMicro = usdToMicro estimatedCost ∧
            r.period = getCurrentPeriod now account.resetPeriod
  | .finalize _ _ key _ => ¬ d.store.keyUsed key

/-- What a reservation counts: its actual cost, or its estimate before that. -/
def Reservation.counts (r : Reservation) : Int := r.settled.getD r.estMicro

/-- The columns of an estimate that a settlement looks at. -/
def columns (r : LedgerRow) : String × Option String × Int × String :=
  (r.tenantId, r.runId, r.amountMicro, r.period)

/-- The invariant of the desk. -/
structure InBalance (d : Desk) : Prop where
  linked : WellLinked d.store
  rows : d.store.debits.map columns =
    d.reservations.map fun r => (r.tenantId, some r.runId, r.estMicro, r.period)
  alike : ∀ q ∈ d.reservations, ∀ r ∈ d.reservations, q.tenantId = r.tenantId →
    q.runId = r.runId → q.estMicro = r.estMicro ∧ q.period = r.period
  tenants : ∀ r ∈ d.reservations, r.tenantId ∈ d.store.accounts.keys
  ascents : ∀ r ∈ d.reservations, ∃ path, Ascent d.store.climbsTo r.tenantId path ∧ path.Nodup ∧
    ∀ a, a ∈ path ↔ Above d.store.parent r.tenantId a
  balances : ∀ r ∈ d.reservations, ∀ a, Above d.store.parent r.tenantId a →
    HasBalance d.store a r.period
  spent : ∀ a p, d.store.spent a p = sumAt d a p Reservation.counts

theorem inBalance_start : InBalance ⟨.empty, [], []⟩ := by
  refine ⟨?_, rfl, by simp, by simp, by simp, by simp, ?_⟩
  · intro t p h
    simp [Store.empty, Store.parent] at h
  · intro a p
    rfl

theorem InBalance.settledExactly {d : Desk} (h : InBalance d) : SettledExactly d := by
  intro hall a p
  rw [h.spent]
  unfold sumAt
  congr 1
  apply List.map_congr_left
  intro r hr
  obtain ⟨actual, hactual⟩ := Option.isSome_iff_exists.mp (hall r hr)
  simp [Reservation.counts, hactual]

/-- The reservations of a desk are the ones that the ledger has an estimate for,
so the lookup finds an estimate that looks like the reservation's own. -/
theorem InBalance.estimate_found {d : Desk} (h : InBalance d) {r : Reservation}
    (hr : r ∈ d.reservations) :
    ∃ q, findEstimate d.store r.tenantId r.runId = some q ∧ q.amountMicro = r.estMicro ∧
      q.period = r.period := by
  have hrow : (r.tenantId, some r.runId, r.estMicro, r.period) ∈ d.store.debits.map columns := by
    rw [h.rows]
    exact List.mem_map.mpr ⟨r, hr, rfl⟩
  obtain ⟨row, hrow, hcolumns⟩ := List.mem_map.mp hrow
  simp only [columns, Prod.mk.injEq] at hcolumns
  simp only [Store.debits, List.mem_filter, decide_eq_true_eq] at hrow
  rcases hfind : findEstimate d.store r.tenantId r.runId with _ | q
  · have hnone := List.find?_eq_none.mp hfind row hrow.1
    simp [hcolumns, hrow.2] at hnone
  · refine ⟨q, rfl, ?_⟩
    have hq := List.find?_some hfind
    have hmem := List.mem_of_find?_eq_some hfind
    simp only [decide_eq_true_eq] at hq
    have hdebit : columns q ∈ d.store.debits.map columns := by
      apply List.mem_map_of_mem
      simp [Store.debits, hmem, hq]
    rw [h.rows] at hdebit
    obtain ⟨r', hr', hsame⟩ := List.mem_map.mp hdebit
    simp only [columns, Prod.mk.injEq] at hsame
    obtain ⟨htenant, hrun, hest, hperiod⟩ := hsame
    have hrunId : r'.runId = r.runId := by
      rw [hq.1] at hrun
      exact Option.some.inj hrun
    obtain ⟨hestEq, hperiodEq⟩ := h.alike r' hr' r hr (by rw [htenant, hq.2.1]) hrunId
    exact ⟨by rw [← hest, hestEq], by rw [← hperiod, hperiodEq]⟩

/-! ## One step -/

theorem hasBalance_createAccount {s s' : Store} {t : String} {parentId : Option String}
    {limit : Rat} {reset : String} {now : Date}
    (h : createAccount s t parentId limit reset now = .ok s') {a p : String}
    (ha : HasBalance s a p) : HasBalance s' a p := by
  unfold createAccount at h
  simp only at h
  split at h
  · cases h
    unfold HasBalance at ha ⊢
    simp only
    split
    · exact ha
    · rw [Dict.get?_set]
      split
      · rfl
      · exact ha
  · cases h

theorem inBalance_createAccount {d : Desk} {t : String} {parentId : Option String} {limit : Rat}
    {reset : String} {now : Date} {s' : Store} (h : InBalance d)
    (ht : t ∉ d.store.accounts.keys)
    (hcall : createAccount d.store t parentId limit reset now = .ok s') :
    InBalance { d with store := s' } := by
  obtain ⟨haccounts, -, hledger, hspent⟩ := createAccount_ok hcall
  have hget := fun a (ha : a ∈ d.store.accounts.keys) => get?_of_new haccounts ht ha
  have habove : ∀ r ∈ d.reservations, ∀ a,
      Above s'.parent r.tenantId a ↔ Above d.store.parent r.tenantId a :=
    fun r hr a => above_of_new h.linked haccounts ht (h.tenants r hr) a
  refine ⟨wellLinked_createAccount h.linked hcall, ?_, h.alike, ?_, ?_, ?_, ?_⟩
  · simp only [debits_of_ledger hledger]
    exact h.rows
  · intro r hr
    rw [Dict.mem_keys_iff, hget _ (h.tenants r hr), ← Dict.mem_keys_iff]
    exact h.tenants r hr
  · intro r hr
    obtain ⟨path, hascent, hnodup, hall⟩ := h.ascents r hr
    refine ⟨path, ?_, hnodup, fun a => (hall a).trans (habove r hr a).symm⟩
    apply hascent.congr
    intro a ha
    unfold Store.climbsTo Store.parent
    rw [hget a (h.linked.above (h.tenants r hr) ((hall a).mp ha))]
  · intro r hr a ha
    exact hasBalance_createAccount hcall (h.balances r hr a ((habove r hr a).mp ha))
  · intro a p
    rw [hspent, h.spent]
    unfold sumAt
    congr 1
    apply List.map_congr_left
    intro r hr
    simp only [habove r hr a]

/-- What a reservation leaves behind that a settlement needs. -/
theorem reserve_ok {sha : String → String} (hsha : Function.Injective sha) {s s' : Store}
    (hlinked : WellLinked s) {t : String} {account : Account}
    (ht : s.accounts.get? t = some account) {key : String} (hkey : ¬ s.keyUsed key) {now : Date}
    (hplain : Plain sha s t key (getCurrentPeriod now account.resetPeriod)) {est : Rat}
    {runId model : String} (h : debit sha s t est runId model key now = .ok s') :
    (∃ path, Ascent s.climbsTo t path ∧ path.Nodup ∧ ∀ a, a ∈ path ↔ Above s.parent t a) ∧
      ∀ a p, HasBalance s a p ∨
        (Above s.parent t a ∧ p = getCurrentPeriod now account.resetPeriod) →
          HasBalance s' a p := by
  have hkeys : t ∈ s.accounts.keys := (Dict.mem_keys_iff _ _).mpr ⟨account, ht⟩
  obtain ⟨u, gone, -, hgone, rfl⟩ := debit_ok ht hkey h
  have hall := hgone.all hsha hlinked hkeys hplain
  refine ⟨⟨gone, hgone.ascent hsha hlinked hkeys hplain, hgone.nodup, hall⟩, ?_⟩
  intro a p hap
  rw [← hall] at hap
  have hcharged : HasBalance (chargeAll sha (usdToMicro est)
      (getCurrentPeriod now account.resetPeriod) key now gone s) a p := hasBalance_chargeAll hap
  rw [← hgone.result] at hcharged
  exact hcharged

theorem parent_of_accounts {s s' : Store} (h : s'.accounts = s.accounts) :
    s'.parent = s.parent ∧ s'.climbsTo = s.climbsTo := by
  have hparent : s'.parent = s.parent := by
    unfold Store.parent
    rw [h]
  refine ⟨hparent, ?_⟩
  unfold Store.climbsTo
  rw [hparent]

theorem inBalance_reserve {sha : String → String} (hsha : Function.Injective sha) {d : Desk}
    {t : String} {account : Account} {est : Rat} {runId model key : String} {now : Date}
    {s' : Store} (h : InBalance d) (ht : d.store.accounts.get? t = some account)
    (hsettles : Settles sha d (.reserve t est runId model key now))
    (hcall : debit sha d.store t est runId model key now = .ok s') (keys : List String) :
    InBalance ⟨s', d.reservations ++ [reserved t account est runId now], keys⟩ := by
  obtain ⟨hkey, hplain⟩ := hsettles
  obtain ⟨hplain, halike⟩ := hplain account ht
  have hbooked := booked_of_debit hsha h.linked ht hkey hplain hcall
  obtain ⟨⟨path, hascent, hnodup, hall⟩, hbalance⟩ :=
    reserve_ok hsha h.linked ht hkey hplain hcall
  obtain ⟨hparent, hclimbsTo⟩ := parent_of_accounts hbooked.accounts
  have hkeys : t ∈ d.store.accounts.keys := (Dict.mem_keys_iff _ _).mpr ⟨account, ht⟩
  refine ⟨wellLinked_of_accounts hbooked.accounts h.linked, ?_, ?_, ?_, ?_, ?_, ?_⟩
  · simp only [hbooked.debits, List.map_append, h.rows]
    rfl
  · have hnew : ∀ r ∈ d.reservations, r.tenantId = t → r.runId = runId →
        r.estMicro = (reserved t account est runId now).estMicro ∧
          r.period = (reserved t account est runId now).period := halike
    intro q hq r hr htenant hrun
    simp only [List.mem_append, List.mem_singleton] at hq hr
    rcases hq with hq | rfl
    · rcases hr with hr | rfl
      · exact h.alike q hq r hr htenant hrun
      · exact hnew q hq htenant hrun
    · rcases hr with hr | rfl
      · obtain ⟨hest, hperiod⟩ := hnew r hr htenant.symm hrun.symm
        exact ⟨hest.symm, hperiod.symm⟩
      · exact ⟨rfl, rfl⟩
  · intro r hr
    simp only [hbooked.accounts]
    simp only [List.mem_append, List.mem_singleton] at hr
    rcases hr with hr | rfl
    · exact h.tenants r hr
    · exact hkeys
  · intro r hr
    simp only [hparent, hclimbsTo]
    simp only [List.mem_append, List.mem_singleton] at hr
    rcases hr with hr | rfl
    · exact h.ascents r hr
    · exact ⟨path, hascent, hnodup, hall⟩
  · intro r hr a ha
    simp only [hparent] at ha
    simp only [List.mem_append, List.mem_singleton] at hr
    rcases hr with hr | rfl
    · exact hbalance a r.period (Or.inl (h.balances r hr a ha))
    · exact hbalance a _ (Or.inr ⟨ha, rfl⟩)
  · intro a p
    have hsum : sumAt ⟨s', d.reservations ++ [reserved t account est runId now], keys⟩ a p
        Reservation.counts = sumAt d a p Reservation.counts +
          if Above d.store.parent t a ∧ getCurrentPeriod now account.resetPeriod = p then
            usdToMicro est else 0 := by
      simp only [sumAt, hparent, List.map_append, List.sum_append]
      simp [reserved, Reservation.counts]
    rw [hsum, ← h.spent]
    by_cases hap : Above d.store.parent t a ∧ p = getCurrentPeriod now account.resetPeriod
    · obtain ⟨ha, rfl⟩ := hap
      rw [if_pos ⟨ha, rfl⟩]
      exact hbooked.counted.charged a ha
    · rw [if_neg (fun hc => hap ⟨hc.1, hc.2.symm⟩), Int.add_zero]
      exact hbooked.counted.others a p hap

/-- A settlement under a free key adds the difference at the tenant and at each
of its ancestors, in the period of the reservation. -/
theorem settledStore_spec {d : Desk} (h : InBalance d) {r : Reservation}
    (hr : r ∈ d.reservations) {key : String} (hkey : ¬ d.store.keyUsed key) (actual : Rat)
    (now : Date) :
    (settledStore d.store r actual key now).accounts = d.store.accounts ∧
      (settledStore d.store r actual key now).debits = d.store.debits ∧
      (∀ a p, HasBalance d.store a p →
        HasBalance (settledStore d.store r actual key now) a p) ∧
      ∀ a p, (settledStore d.store r actual key now).spent a p = d.store.spent a p +
        if Above d.store.parent r.tenantId a ∧ r.period = p then
          usdToMicro actual - r.estMicro else 0 := by
  obtain ⟨q, hfind, hest, hperiod⟩ := h.estimate_found hr
  obtain ⟨path, hascent, hnodup, hall⟩ := h.ascents r hr
  generalize hrow : correctionRow r.tenantId (-(usdToMicro actual - r.estMicro)) r.runId key now
    r.period = row
  have htype : row.entryType = .creditCorrection := by
    rw [← hrow]
    rfl
  have hkeys : ∀ a ∈ path, a ∈ (d.store.insertRow row).accounts.keys :=
    fun a ha => h.linked.above (h.tenants r hr) ((hall a).mp ha)
  have hclimb : recursiveUpdateBalance (d.store.insertRow row) r.tenantId
      (usdToMicro actual - r.estMicro) r.period =
      .ok (updateAll (usdToMicro actual - r.estMicro) r.period path (d.store.insertRow row)) :=
    recursiveUpdateBalance_of_ascent hascent hnodup hkeys
  have hresult : settledStore d.store r actual key now =
      updateAll (usdToMicro actual - r.estMicro) r.period path (d.store.insertRow row) := by
    unfold settledStore finalize adjustActual
    simp only [hfind, hest, hperiod, if_neg hkey, hrow, hclimb]
  obtain ⟨haccounts, hledger⟩ := recursiveUpdateBalance_keeps hclimb
  rw [hresult]
  refine ⟨haccounts, ?_, ?_, ?_⟩
  · rw [debits_of_ledger hledger, Store.debits_insertRow, htype]
    simp
  · exact fun a p ha => hasBalance_updateAll.mpr ha
  · intro a p
    have hthere : ∀ x ∈ path, HasBalance (d.store.insertRow row) x r.period :=
      fun x hx => h.balances r hr x ((hall x).mp hx)
    rw [spent_updateAll hnodup, Store.spent_insertRow]
    congr 1
    have hsame : (a ∈ path ∧ p = r.period ∧ HasBalance (d.store.insertRow row) a p) ↔
        (Above d.store.parent r.tenantId a ∧ r.period = p) := by
      rw [← hall]
      constructor
      · exact fun hc => ⟨hc.1, hc.2.1.symm⟩
      · rintro ⟨ha, rfl⟩
        exact ⟨ha, rfl, hthere a ha⟩
    simp only [hsame]

theorem map_set_same {α β : Type} (f : α → β) {xs : List α} {i : Nat} {x y : α}
    (h : xs[i]? = some x) (hf : f y = f x) : (xs.set i y).map f = xs.map f := by
  obtain ⟨hi, rfl⟩ := List.getElem?_eq_some_iff.mp h
  have hmap : i < (xs.map f).length := by simpa using hi
  rw [List.map_set, hf]
  conv_rhs => rw [← List.set_getElem_self hmap]
  rw [List.getElem_map]

theorem sum_map_set {α : Type} (f : α → Int) (xs : List α) {i : Nat} {x y : α}
    (h : xs[i]? = some x) : ((xs.set i y).map f).sum = (xs.map f).sum - f x + f y := by
  induction xs generalizing i with
  | nil => simp at h
  | cons z rest ih =>
    cases i with
    | zero =>
      simp only [List.getElem?_cons_zero, Option.some.injEq] at h
      subst h
      simp only [List.set_cons_zero, List.map_cons, List.sum_cons]
      omega
    | succ i =>
      rw [List.getElem?_cons_succ] at h
      simp only [List.set_cons_succ, List.map_cons, List.sum_cons, ih h]
      omega

theorem inBalance_finalize {sha : String → String} {d : Desk} {i : Nat} {r : Reservation}
    {actual : Rat} {key : String} {now : Date} (h : InBalance d)
    (hr : d.reservations[i]? = some r) (hopen : r.settled = none)
    (hkey : Settles sha d (.finalize i actual key now)) (keys : List String) :
    InBalance ⟨settledStore d.store r actual key now,
      d.reservations.set i { r with settled := some (usdToMicro actual) }, keys⟩ := by
  have hmem := List.mem_of_getElem? hr
  obtain ⟨haccounts, hdebits, hbalance, hspent⟩ := settledStore_spec h hmem hkey actual now
  obtain ⟨hparent, hclimbsTo⟩ := parent_of_accounts haccounts
  have hback : ∀ q ∈ d.reservations.set i { r with settled := some (usdToMicro actual) },
      ∃ q' ∈ d.reservations, q'.tenantId = q.tenantId ∧ q'.runId = q.runId ∧
        q'.estMicro = q.estMicro ∧ q'.period = q.period := by
    intro q hq
    rcases List.mem_or_eq_of_mem_set hq with hq | rfl
    · exact ⟨q, hq, rfl, rfl, rfl, rfl⟩
    · exact ⟨r, hmem, rfl, rfl, rfl, rfl⟩
  refine ⟨wellLinked_of_accounts haccounts h.linked, ?_, ?_, ?_, ?_, ?_, ?_⟩
  · simp only [hdebits, h.rows]
    let shown : Reservation → String × Option String × Int × String :=
      fun r => (r.tenantId, some r.runId, r.estMicro, r.period)
    have hshown : shown { r with settled := some (usdToMicro actual) } = shown r := rfl
    exact (map_set_same shown hr hshown).symm
  · intro q hq p hp htenant hrun
    obtain ⟨q', hq', hqt, hqr, hqe, hqp⟩ := hback q hq
    obtain ⟨p', hp', hpt, hpr, hpe, hpp⟩ := hback p hp
    have := h.alike q' hq' p' hp' (by rw [hqt, hpt, htenant]) (by rw [hqr, hpr, hrun])
    rwa [hqe, hpe, hqp, hpp] at this
  · intro q hq
    obtain ⟨q', hq', htenant, -⟩ := hback q hq
    rw [haccounts, ← htenant]
    exact h.tenants q' hq'
  · intro q hq
    obtain ⟨q', hq', htenant, -⟩ := hback q hq
    simp only [hparent, hclimbsTo, ← htenant]
    exact h.ascents q' hq'
  · intro q hq a ha
    obtain ⟨q', hq', htenant, -, -, hperiod⟩ := hback q hq
    simp only [hparent, ← htenant] at ha
    rw [← hperiod]
    exact hbalance a _ (h.balances q' hq' a ha)
  · intro a p
    rw [hspent, h.spent]
    unfold sumAt
    rw [sum_map_set _ _ hr]
    simp only [hparent]
    by_cases hap : Above d.store.parent r.tenantId a ∧ r.period = p
    · simp [hap, Reservation.counts, hopen]
      omega
    · simp [hap]

/-! ## Runs -/

theorem inBalance_step {sha : String → String} (hsha : Function.Injective sha) {d d' : Desk}
    {call : DeskCall} (h : InBalance d)
    (hstep : ((desk sha).restrict (Settles sha)).step d call d') : InBalance d' := by
  obtain ⟨hcall, hsettles⟩ := hstep
  change deskStep sha d call = some d' at hcall
  unfold deskStep at hcall
  cases call with
  | createAccount t parentId limit reset now =>
    simp only at hcall
    split at hcall
    · cases hcall
    · rename_i ht
      split at hcall
      · cases hcall
      · rename_i s' hcreate
        cases hcall
        exact inBalance_createAccount h ht hcreate
  | reserve t est runId model key now =>
    simp only at hcall
    split at hcall
    · cases hcall
    · split at hcall
      · rename_i account s' left hacc hreserve
        cases hcall
        exact inBalance_reserve hsha h hacc hsettles (debit_of_checkAndDebit hreserve) _
      · cases hcall
  | finalize index actual key now =>
    simp only at hcall
    split at hcall
    · cases hcall
    · split at hcall
      · cases hcall
      · rename_i r hr
        by_cases hsettled : r.settled.isSome = true
        · rw [if_pos hsettled] at hcall
          cases hcall
        · rw [if_neg hsettled] at hcall
          cases hcall
          exact inBalance_finalize h hr (Option.not_isSome_iff_eq_none.mp hsettled) hsettles _

/-- Reservations whose keys and chains are plain, and which look the same where
they are of one run of a tenant, are settled exactly: in any order, once each of
them is finalized, every balance is the sum of the actual costs. -/
theorem settlement_is_exact {sha : String → String} (hsha : Function.Injective sha) {d : Desk}
    (h : Reachable ((desk sha).restrict (Settles sha)) d) : SettledExactly d := by
  have hbalance : InBalance d := by
    apply h.invariant
    · intro u hu
      cases hu
      exact inBalance_start
    · exact fun u call u' hu hstep => inBalance_step hsha hu hstep
  exact hbalance.settledExactly

/-! ## Two reservations of one run -/

/-- The digests of the texts that the calls below derive keys from. -/
def digests : Dict String String where
  entries := [
    ("k1|t|2024-05",
      "1cde4f35f09368a926ceff604d1a2a3d6ae8f02e5017ba76870f0deede842ad9"),
    ("k1|p|2024-05",
      "e13fffb2653d078386d13f3669e68a34e5097b8b8fbb0629f3e5e44f408802e4"),
    ("k2|t|2024-05",
      "c7599a9659631472a7a833a8aec09d95c8aa59ee1212707cf1edcef4b66396c3"),
    ("k2|p|2024-05",
      "4bee8d071218adbfee23617c1dabafc27d3e69a91e90a018a7fecafd297c141a")]
  nodup := by decide

theorem digests_injective : Function.Injective (digestOf digests) :=
  digestOf_injective (by decide) (by decide)

def today : Date := ⟨2024, 5, 3⟩

instance (sha : String → String) (d : Desk) : (call : DeskCall) → Decidable (Settles sha d call)
  | .createAccount .. => isTrue trivial
  | .reserve tenantId estimatedCost runId _ key now =>
    inferInstanceAs (Decidable (¬ d.store.keyUsed key ∧
      ∀ account ∈ d.store.accounts.get? tenantId,
        Plain sha d.store tenantId key (getCurrentPeriod now account.resetPeriod) ∧
          ∀ r ∈ d.reservations, r.tenantId = tenantId → r.runId = runId →
            r.estMicro = usdToMicro estimatedCost ∧
              r.period = getCurrentPeriod now account.resetPeriod))
  | .finalize _ _ key _ => inferInstanceAs (Decidable (¬ d.store.keyUsed key))

/-- A step of the desk that meets the condition. -/
def settlesStep (d : Desk) (call : DeskCall) : Option Desk :=
  if Settles (digestOf digests) d call then deskStep (digestOf digests) d call else none

theorem step_of_settlesStep {d d' : Desk} {call : DeskCall} (h : settlesStep d call = some d') :
    ((desk (digestOf digests)).restrict (Settles (digestOf digests))).step d call d' := by
  unfold settlesStep at h
  by_cases hsettles : Settles (digestOf digests) d call
  · rw [if_pos hsettles] at h
    exact ⟨h, hsettles⟩
  · rw [if_neg hsettles] at h
    cases h

/-- Two reservations of one run with one estimate, finalized in the other order. -/
def evenCalls : List DeskCall := [
  .createAccount "p" none 10 "monthly" today,
  .createAccount "t" (some "p") 10 "monthly" today,
  .reserve "t" 1 "r1" "gpt" "k1" today,
  .reserve "t" 1 "r1" "gpt" "k2" today,
  .finalize 1 3 "f1" today,
  .finalize 0 2 "f2" today]

def evenDesk : Desk := (evenCalls.foldlM settlesStep ⟨.empty, [], []⟩).getD ⟨.empty, [], []⟩

theorem even_reservations_are_settled : SettledExactly evenDesk :=
  settlement_is_exact digests_injective
    ⟨_, evenCalls, rfl, run_of_foldlM (fun _ _ _ => step_of_settlesStep) (by decide +kernel)⟩

/-- Two reservations of one run with two estimates, each finalized at its own. -/
def unevenCalls : List DeskCall := [
  .createAccount "t" none 10 "monthly" today,
  .reserve "t" 1 "r1" "gpt" "k1" today,
  .reserve "t" 2 "r1" "gpt" "k2" today,
  .finalize 0 1 "f1" today,
  .finalize 1 2 "f2" today]

def unevenDesk : Desk :=
  (unevenCalls.foldlM (deskStep (digestOf digests)) ⟨.empty, [], []⟩).getD ⟨.empty, [], []⟩

/-- They cost 3, and the balance says 4. -/
theorem uneven_reservations_are_not_settled :
    Function.Injective (digestOf digests) ∧ Reachable (desk (digestOf digests)) unevenDesk ∧
      ¬ SettledExactly unevenDesk := by
  have hrun : Run (desk (digestOf digests)) ⟨.empty, [], []⟩ unevenCalls unevenDesk :=
    run_of_foldlM (fun _ _ _ h => h) (by decide +kernel)
  refine ⟨digests_injective, ⟨_, unevenCalls, rfl, hrun⟩, ?_⟩
  intro h
  have hall : ∀ r ∈ unevenDesk.reservations, r.settled.isSome = true := by decide +kernel
  have hspent : unevenDesk.store.spent "t" "2024-05" ≠
      sumAt unevenDesk "t" "2024-05" fun r => r.settled.getD 0 := by
    decide +kernel
  exact hspent (h hall "t" "2024-05")

end orchestra.settlement
