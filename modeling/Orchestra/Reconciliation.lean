-- The ledger against the balances. A debit writes a row at each account of its chain and
-- one more at the tenant, and a correction writes one row and changes the balances of the
-- whole chain, so what the rows add up to and what the balances say part company.
import Orchestra.Overdraft
import Orchestra.Settlement

open dicts climbs machine orchestra.budget orchestra.billing orchestra.overdraft orchestra.settlement

namespace orchestra.reconciliation

/-! ## Sums of an account -/

def isDebit (r : LedgerRow) : Bool := r.entryType = .debitEstimate ∨ r.entryType = .parentDebit

def isCorrection (r : LedgerRow) : Bool := r.entryType = .creditCorrection

/-- The rows of a kind for an account and a period. -/
def rowsOf (s : Store) (kind : LedgerRow → Bool) (a p : String) : List LedgerRow :=
  s.ledger.filter fun r => kind r ∧ r.tenantId = a ∧ r.period = p

/-- Every balance is the sum of its debits less the sum of its corrections. -/
def Reconciled (s : Store) : Prop :=
  ∀ a p, s.spent a p = total (rowsOf s isDebit a p) - total (rowsOf s isCorrection a p)

/-- What the balance of an account has beyond what its rows add up to. -/
def surplus (s : Store) (a p : String) : Int :=
  s.spent a p - (total (rowsOf s isDebit a p) - total (rowsOf s isCorrection a p))

/-- What a row adds to the balance that it speaks for. -/
def entry (r : LedgerRow) : Int :=
  if r.entryType = .creditCorrection then -r.amountMicro else r.amountMicro

/-- A call after which balances and rows still agree, when they did before it. -/
def BooksMatch (s : Store) : BudgetCall → Prop
  | .createAccount .. => True
  | .checkAndDebit tenantId estimatedUsd _ _ key _ =>
    s.keyUsed key ∨ s.accounts.get? tenantId = none ∨ usdToMicro estimatedUsd = 0
  | .adjustActual tenantId runId actualUsd _ _ =>
    ∀ r, findEstimate s tenantId runId = some r →
      usdToMicro actualUsd = r.amountMicro ∨
        ∀ a, Above s.climbsTo tenantId a → (HasBalance s a r.period ↔ a = tenantId)

theorem reconciled_iff {s : Store} : Reconciled s ↔ ∀ a p, surplus s a p = 0 := by
  unfold Reconciled surplus
  constructor
  · intro h a p
    have := h a p
    omega
  · intro h a p
    have := h a p
    omega

/-! ## What the writes do to the surplus -/

theorem total_rowsOf_insertRow (s : Store) (kind : LedgerRow → Bool) (r : LedgerRow)
    (a p : String) :
    total (rowsOf (s.insertRow r) kind a p) = total (rowsOf s kind a p) +
      if kind r = true ∧ r.tenantId = a ∧ r.period = p then r.amountMicro else 0 := by
  unfold rowsOf Store.insertRow
  rw [List.filter_append, total_append]
  by_cases h : kind r = true ∧ r.tenantId = a ∧ r.period = p
  · simp [h]
  · simp [h]

theorem surplus_insertRow (s : Store) (r : LedgerRow) (a p : String) :
    surplus (s.insertRow r) a p =
      surplus s a p - if r.tenantId = a ∧ r.period = p then entry r else 0 := by
  unfold surplus
  rw [total_rowsOf_insertRow, total_rowsOf_insertRow, Store.spent_insertRow]
  by_cases h : r.tenantId = a ∧ r.period = p
  · rcases hkind : r.entryType with _ | _ | _
    · simp [h, isDebit, isCorrection, entry, hkind]
      omega
    · simp [h, isDebit, isCorrection, entry, hkind]
      omega
    · simp [h, isDebit, isCorrection, entry, hkind]
      omega
  · simp [h]

theorem surplus_of_ledger {s s' : Store} (h : s'.ledger = s.ledger) (a p : String) :
    surplus s' a p = surplus s a p + (s'.spent a p - s.spent a p) := by
  unfold surplus rowsOf
  rw [h]
  omega

theorem surplus_addSpent (s : Store) (t q : String) (n : Int) (a p : String) :
    surplus (s.addSpent t q n) a p = surplus s a p + if a = t ∧ p = q then n else 0 := by
  rw [surplus_of_ledger (Store.ledger_addSpent s t q n), Store.spent_addSpent]
  omega

/-- The charge of an account writes one row for what it adds. -/
theorem surplus_charge {sha : String → String} {amount : Int} {period key : String} {now : Date}
    (t : String) (s : Store) (a p : String) :
    surplus (charge sha amount period key now t s) a p = surplus s a p := by
  unfold charge
  rw [surplus_addSpent, surplus_insertRow]
  by_cases h : a = t ∧ p = period
  · obtain ⟨rfl, rfl⟩ := h
    simp [parentRow, entry]
  · have hne : ¬(t = a ∧ period = p) := fun hc => h ⟨hc.1.symm, hc.2.symm⟩
    simp [h, parentRow, hne]

theorem surplus_chargeAll {sha : String → String} {amount : Int} {period key : String} {now : Date}
    (path : List String) (s : Store) (a p : String) :
    surplus (chargeAll sha amount period key now path s) a p = surplus s a p := by
  induction path generalizing s with
  | nil => rfl
  | cons t rest ih => exact (ih (charge sha amount period key now t s)).trans (surplus_charge t s a p)

/-- A debit leaves its own row, beside the one that the tenant got in the climb. -/
theorem surplus_debit {sha : String → String} {s s' : Store} {t : String} {account : Account}
    (ht : s.accounts.get? t = some account) {est : Rat} {runId model key : String} {now : Date}
    (hkey : ¬s.keyUsed key) (h : debit sha s t est runId model key now = .ok s') (a p : String) :
    surplus s' a p = surplus s a p -
      if t = a ∧ getCurrentPeriod now account.resetPeriod = p then usdToMicro est else 0 := by
  obtain ⟨u, gone, -, hgone, rfl⟩ := debit_ok ht hkey h
  rw [surplus_insertRow, hgone.result, surplus_chargeAll]
  simp [estimateRow, entry]

theorem surplus_createAccount {s s' : Store} {t : String} {parentId : Option String} {limit : Rat}
    {reset : String} {now : Date} (h : createAccount s t parentId limit reset now = .ok s')
    (a p : String) : surplus s' a p = surplus s a p := by
  obtain ⟨-, -, hledger, hspent⟩ := createAccount_ok h
  rw [surplus_of_ledger hledger, hspent]
  omega

/-- A settlement updates the way from the tenant to the top. -/
theorem updateAll_of_ok {s s' : Store} {t period : String} {amount : Int}
    (h : recursiveUpdateBalance s t amount period = .ok s') :
    ∃ path, Ascent s.climbsTo t path ∧ s' = updateAll amount period path s := by
  obtain ⟨path, hclimb, -⟩ := climbs_of_climb h
  let P : Store → Prop := fun _ => True
  let Q : String → Prop := fun _ => True
  have hgo : ∀ a u u', P u → updateBalance amount period a u = .ok (u', true) →
      u' = updateSpent u a period amount ∧ P u' ∧ Q a := by
    intro a u u' _ hv
    cases hv
    exact ⟨rfl, trivial, trivial⟩
  have hstop : ∀ a u u', updateBalance amount period a u = .ok (u', false) → u' = u := by
    intro a u u' hv
    simp [updateBalance] at hv
  obtain ⟨gone, hfold, -, hend⟩ := hclimb.folds hgo hstop trivial
  rcases hend with ⟨rfl, hascent⟩ | ⟨a, -, hlast⟩
  · exact ⟨path, hascent, hfold⟩
  · simp [updateBalance] at hlast

/-- A correction leaves one row, for the tenant, and changes every balance that there is
on the way from the tenant to the top. -/
theorem surplus_adjustActual {s s' : Store} {t runId : String} {r : LedgerRow}
    (hfind : findEstimate s t runId = some r) {actual : Rat} {key : String} {now : Date}
    (h : adjustActual s t runId actual key now = .ok s') :
    ∃ path, Ascent s.climbsTo t path ∧ ∀ a p, surplus s' a p = surplus s a p +
      (if a ∈ path ∧ p = r.period ∧ HasBalance s a p then
        usdToMicro actual - r.amountMicro else 0) -
      if a = t ∧ p = r.period then usdToMicro actual - r.amountMicro else 0 := by
  unfold adjustActual at h
  simp only [hfind] at h
  by_cases hkey : s.keyUsed key
  · simp [hkey] at h
  rw [if_neg hkey] at h
  obtain ⟨path, hascent, rfl⟩ := updateAll_of_ok h
  refine ⟨path, hascent, fun a p => ?_⟩
  rw [surplus_of_ledger (recursiveUpdateBalance_keeps h).2, surplus_insertRow,
    spent_updateAll hascent.nodup]
  have hbalance : ∀ row, HasBalance (s.insertRow row) a p ↔ HasBalance s a p := fun _ => Iff.rfl
  simp only [hbalance, Store.spent_insertRow, correctionRow, entry, if_true, neg_neg]
  by_cases hat : a = t ∧ p = r.period
  · obtain ⟨rfl, rfl⟩ := hat
    simp
    omega
  · have hne : ¬(t = a ∧ r.period = p) := fun hc => hat ⟨hc.1.symm, hc.2.symm⟩
    rw [if_neg hat, if_neg hne]
    omega

/-! ## Which calls keep the books -/

theorem reconciled_debit_iff {sha : String → String} {s s' : Store} (hs : Reconciled s)
    {t : String} {est : Rat} {runId model key : String} {now : Date}
    (h : debit sha s t est runId model key now = .ok s') :
    Reconciled s' ↔ s.keyUsed key ∨ s.accounts.get? t = none ∨ usdToMicro est = 0 := by
  by_cases hkey : s.keyUsed key
  · rw [debit_of_keyUsed hkey] at h
    cases h
    simp [hkey, hs]
  rcases hacc : s.accounts.get? t with _ | account
  · rw [debit_of_no_account hacc] at h
    cases h
    simp [hs]
  have hsurplus := surplus_debit hacc hkey h
  rw [reconciled_iff] at hs ⊢
  simp only [hkey, reduceCtorEq, false_or]
  constructor
  · intro hall
    have hhere := hall t (getCurrentPeriod now account.resetPeriod)
    rw [hsurplus, hs] at hhere
    simpa using hhere
  · intro hzero a p
    rw [hsurplus, hs, hzero]
    simp

theorem reconciled_adjustActual_iff {s s' : Store} (hs : Reconciled s) {t runId : String}
    {r : LedgerRow} (hfind : findEstimate s t runId = some r) {actual : Rat} {key : String}
    {now : Date} (h : adjustActual s t runId actual key now = .ok s') :
    Reconciled s' ↔ usdToMicro actual = r.amountMicro ∨
      ∀ a, Above s.climbsTo t a → (HasBalance s a r.period ↔ a = t) := by
  obtain ⟨path, hascent, hsurplus⟩ := surplus_adjustActual hfind h
  rw [reconciled_iff] at hs ⊢
  simp only [hsurplus, hs]
  constructor
  · intro hall
    by_cases hdiff : usdToMicro actual = r.amountMicro
    · exact .inl hdiff
    · refine .inr fun a ha => ?_
      have hmem := hascent.mem_iff.mpr ha
      have hhere := hall a r.period
      by_cases hat : a = t
      · subst hat
        by_cases hrow : HasBalance s a r.period
        · simp [hrow]
        · simp [hrow] at hhere
          omega
      · by_cases hrow : HasBalance s a r.period
        · simp [hmem, hrow, hat] at hhere
          omega
        · simp [hrow, hat]
  · rintro (hdiff | hrows) a p
    · simp [hdiff]
    · by_cases hp : p = r.period
      · subst hp
        by_cases ha : a ∈ path
        · simp [ha, hrows a (hascent.above a ha)]
        · have hat : a ≠ t := fun heq => ha (heq ▸ hascent.head_mem)
          simp [ha, hat]
      · simp [hp]

/-- A call keeps the agreement of balances and rows exactly when its books match. -/
theorem reconciled_transact_iff {sha : String → String} {s s' : Store} {call : BudgetCall}
    (hs : Reconciled s) (h : transact sha s call = .ok s') :
    Reconciled s' ↔ BooksMatch s call := by
  cases call with
  | createAccount t parentId limit reset now =>
    refine ⟨fun _ => trivial, fun _ => ?_⟩
    rw [reconciled_iff] at hs ⊢
    intro a p
    rw [surplus_createAccount h, hs]
  | checkAndDebit t est runId model key now => exact reconciled_debit_iff hs h
  | adjustActual t runId actual key now =>
    rcases hfind : findEstimate s t runId with _ | r
    · have hsame : s' = s := by
        simp only [transact, adjustActual, hfind, Except.ok.injEq] at h
        exact h.symm
      subst hsame
      simp [BooksMatch, hfind, hs]
    · rw [reconciled_adjustActual_iff hs hfind h]
      simp [BooksMatch, hfind]

theorem ledger_deterministic {sha : String → String} (s : Store) (call : BudgetCall) (u v : Store)
    (hu : (ledger sha).step s call u) (hv : (ledger sha).step s call v) : u = v :=
  Except.ok.inj (hu.symm.trans hv)

theorem reconciled_empty : Reconciled .empty := by
  intro a p
  simp [rowsOf, Store.empty, Store.spent]

/-- Rows and balances agree in every state of a run exactly when each of its calls keeps
its books. -/
theorem ledger_reconciles_iff {sha : String → String} {calls : List BudgetCall} {s : Store}
    (h : Run (ledger sha) .empty calls s) :
    Throughout (ledger sha) Reconciled .empty calls ↔
      Run ((ledger sha).restrict BooksMatch) .empty calls s :=
  h.throughout_iff ledger_deterministic (fun _ _ _ => reconciled_transact_iff) reconciled_empty

/-- The digest of the text that the debits below derive a key from. -/
def digests : Dict String String where
  entries := [("k|t|2024-05", "ea6d8f3f3faa1fb1a2ef0d97b11f9327b4831602f29aba95668d8c11242a1012")]
  nodup := by decide

def today : Date := ⟨2024, 5, 3⟩

/-- A new tenant debits an estimate, and is then charged what the run cost. -/
def costing (estimate actual : Rat) : List BudgetCall := [
  .createAccount "t" none 10 "monthly" today,
  .checkAndDebit "t" estimate "r" "gpt" "k" today,
  .adjustActual "t" "r" actual "c" today]

def after (calls : List BudgetCall) : Store := (runCalls (digestOf digests) calls .empty).getD .empty

/-- An estimate of nothing is corrected to what the run cost. -/
theorem a_free_estimate_reconciles :
    Throughout (ledger (digestOf digests)) Reconciled .empty (costing 0 3) := by
  have hopen : transact (digestOf digests) .empty (.createAccount "t" none 10 "monthly" today) =
      .ok (after ((costing 0 3).take 1)) := by decide +kernel
  have hdebit : transact (digestOf digests) (after ((costing 0 3).take 1))
      (.checkAndDebit "t" 0 "r" "gpt" "k" today) = .ok (after ((costing 0 3).take 2)) := by
    decide +kernel
  have hadjust : transact (digestOf digests) (after ((costing 0 3).take 2))
      (.adjustActual "t" "r" 3 "c" today) = .ok (after (costing 0 3)) := by decide +kernel
  have hzero : usdToMicro 0 = 0 := by decide +kernel
  have hrows : BooksMatch (after ((costing 0 3).take 2)) (.adjustActual "t" "r" 3 "c" today) := by
    intro r hr
    have hfound : (findEstimate (after ((costing 0 3).take 2)) "t" "r").map (·.period) =
        some "2024-05" := by decide +kernel
    rw [hr] at hfound
    obtain hperiod : r.period = "2024-05" := Option.some.inj hfound
    have htop : (after ((costing 0 3).take 2)).climbsTo "t" = none := by decide +kernel
    have hbalance : HasBalance (after ((costing 0 3).take 2)) "t" "2024-05" := by decide +kernel
    refine .inr fun a ha => ?_
    obtain rfl : a = "t" := by
      rcases ha.cases_head with heq | ⟨p, hlink, -⟩
      · exact heq.symm
      · rw [htop] at hlink
        cases hlink
    rw [hperiod]
    exact ⟨fun _ => rfl, fun _ => hbalance⟩
  have hrun : Run ((ledger (digestOf digests)).restrict BooksMatch) .empty (costing 0 3)
      (after (costing 0 3)) :=
    .step ⟨hopen, trivial⟩ (.step ⟨hdebit, .inr (.inr hzero)⟩ (.step ⟨hadjust, hrows⟩ (.stay _)))
  exact (ledger_reconciles_iff hrun.of_restrict).mpr hrun

/-- One debit of a new tenant stands in the ledger twice. -/
theorem a_debit_does_not_reconcile :
    Reachable (ledger (digestOf digests)) (after ((costing 1 1).take 2)) ∧
      ¬Reconciled (after ((costing 1 1).take 2)) := by
  have hrun : Run (ledger (digestOf digests)) .empty ((costing 1 1).take 2)
      (after ((costing 1 1).take 2)) := run_of_runCalls (by decide +kernel)
  refine ⟨⟨.empty, _, rfl, hrun⟩, fun h => ?_⟩
  exact absurd (h "t" "2024-05") (by decide +kernel)

end orchestra.reconciliation
