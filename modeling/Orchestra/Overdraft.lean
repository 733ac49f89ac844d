-- Overdrafts in a tree of accounts that does not change. A debit is booked under
-- the period of the account that it is made on, all the way up, so an ancestor
-- keeps its limit as long as the debits below it are booked in periods that
-- cover the periods of its own.
import Orchestra.Billing

open dicts climbs machine orchestra.budget orchestra.billing

namespace orchestra.overdraft

/-! ## Sums of rows -/

def total (rows : List LedgerRow) : Int := (rows.map (·.amountMicro)).sum

@[simp] theorem total_nil : total [] = 0 := rfl

@[simp] theorem total_append (xs ys : List LedgerRow) : total (xs ++ ys) = total xs + total ys := by
  simp [total]

@[simp] theorem total_singleton (r : LedgerRow) : total [r] = r.amountMicro := by
  simp [total]

/-- Of rows without negative amounts, fewer add up to less. -/
theorem total_filter_le {rows : List LedgerRow} (hrows : ∀ r ∈ rows, 0 ≤ r.amountMicro)
    {p q : LedgerRow → Bool} (hpq : ∀ r ∈ rows, p r = true → q r = true) :
    total (rows.filter p) ≤ total (rows.filter q) := by
  induction rows with
  | nil => simp
  | cons r rest ih =>
    have hrest := ih (fun x hx => hrows x (List.mem_cons_of_mem _ hx))
      (fun x hx => hpq x (List.mem_cons_of_mem _ hx))
    have hr := hrows r (List.mem_cons_self ..)
    have himp := hpq r (List.mem_cons_self ..)
    unfold total at hrest ⊢
    by_cases hp : p r = true
    · simp [hp, himp hp]
      omega
    · by_cases hq : q r = true
      · simp [hp, hq]
        omega
      · simp [hp, hq]
        omega

/-! ## Calendar periods -/

/-- Two days of one calendar period. -/
def SamePeriod (periodType : String) (d e : Date) : Prop :=
  (periodType = "daily" → d = e) ∧ d.year = e.year ∧ d.month = e.month

instance (periodType : String) (d e : Date) : Decidable (SamePeriod periodType d e) :=
  inferInstanceAs (Decidable ((periodType = "daily" → d = e) ∧ d.year = e.year ∧ d.month = e.month))

theorem getCurrentPeriod_of_same {periodType : String} {d e : Date}
    (h : SamePeriod periodType d e) :
    getCurrentPeriod d periodType = getCurrentPeriod e periodType := by
  obtain ⟨hday, hyear, hmonth⟩ := h
  unfold getCurrentPeriod
  by_cases hdaily : periodType = "daily"
  · rw [hday hdaily]
  · rw [if_neg hdaily, if_neg hdaily, hyear, hmonth]

theorem getCurrentPeriod_congr {k l : String} (h : k = "daily" ↔ l = "daily") (d : Date) :
    getCurrentPeriod d k = getCurrentPeriod d l := by
  unfold getCurrentPeriod
  by_cases hk : k = "daily"
  · rw [if_pos hk, if_pos (h.mp hk)]
  · rw [if_neg hk, if_neg (fun hl => hk (h.mpr hl))]

/-! ## What a subtree has debited -/

/-- The debits of an account and of its descendants. -/
def debitsUnder (s : Store) (a : String) : List LedgerRow :=
  s.debits.filter (fun r => Above s.parent r.tenantId a)

/-- What an account and its descendants have debited in the calendar period of
a day. -/
def debitedIn (s : Store) (a periodType : String) (day : Date) : Int :=
  total ((debitsUnder s a).filter (fun r => SamePeriod periodType r.createdAt day))

def NoOverdraft (s : Store) : Prop :=
  ∀ a account, s.accounts.get? a = some account →
    ∀ day, debitedIn s a account.resetPeriod day ≤ account.limitMicro

/-! ## Calls on a tree that does not change -/

/-- New accounts, and debits that are not negative. -/
def TreeCall (s : Store) : BudgetCall → Prop
  | .createAccount tenantId .. => tenantId ∉ s.accounts.keys
  | .checkAndDebit _ estimatedUsd .. => 0 ≤ estimatedUsd
  | .adjustActual .. => False

def isDaily (s : Store) (a : String) : Prop :=
  ∃ account ∈ s.accounts.get? a, account.resetPeriod = "daily"

instance (s : Store) (a : String) : Decidable (isDaily s a) :=
  inferInstanceAs (Decidable (∃ account ∈ s.accounts.get? a, account.resetPeriod = "daily"))

/-- A debit of `t` fits the periods of the accounts above it: each of them resets
as often as `t` or more often, and the debits below it so far were made on
accounts that reset as often as `t`. -/
structure OnePeriod (s : Store) (t : String) : Prop where
  covers : ∀ a, Above s.parent t a → isDaily s t → isDaily s a
  shared : ∀ a, Above s.parent t a →
    ∀ r ∈ debitsUnder s a, (isDaily s r.tenantId ↔ isDaily s t)

instance (s : Store) (t : String) : Decidable (OnePeriod s t) :=
  decidable_of_iff
    ((∀ a, Above s.parent t a → isDaily s t → isDaily s a) ∧
      ∀ a, Above s.parent t a → ∀ r ∈ debitsUnder s a, (isDaily s r.tenantId ↔ isDaily s t))
    ⟨fun h => ⟨h.1, h.2⟩, fun h => ⟨h.covers, h.shared⟩⟩

/-- No limit is negative, and each debit that books something has a plain chain
and fits the periods above it. -/
def KeepsBooks (sha : String → String) (s : Store) : BudgetCall → Prop
  | .createAccount _ _ limitUsd _ _ => 0 ≤ usdToMicro limitUsd
  | .checkAndDebit tenantId _ _ _ key now =>
    s.keyUsed key ∨ ∀ account ∈ s.accounts.get? tenantId,
      Plain sha s tenantId key (getCurrentPeriod now account.resetPeriod) ∧ OnePeriod s tenantId
  | .adjustActual .. => True

/-- The runs of a tree of accounts. -/
def tree (sha : String → String) : Machine Store BudgetCall := (ledger sha).restrict TreeCall

/-! ## The invariant -/

/-- The balances are the sums of the debits, and within the limits. -/
structure Books (s : Store) : Prop where
  linked : WellLinked s
  limits : ∀ a account, s.accounts.get? a = some account →
    0 ≤ account.limitMicro ∧ ∀ p, s.spent a p ≤ account.limitMicro
  rows : ∀ r ∈ s.debits, 0 ≤ r.amountMicro ∧
    ∃ account, s.accounts.get? r.tenantId = some account ∧
      r.period = getCurrentPeriod r.createdAt account.resetPeriod
  booked : ∀ a p, s.spent a p = total ((debitsUnder s a).filter (·.period = p))
  periods : ∀ a, ∀ r ∈ debitsUnder s a, (isDaily s r.tenantId → isDaily s a) ∧
    ∀ q ∈ debitsUnder s a, (isDaily s q.tenantId ↔ isDaily s r.tenantId)

theorem books_empty : Books .empty := by
  have hdebits : Store.empty.debits = [] := rfl
  have hunder : ∀ a, debitsUnder .empty a = [] := by
    intro a
    unfold debitsUnder
    rw [hdebits, List.filter_nil]
  refine ⟨?_, ?_, ?_, ?_, ?_⟩
  · intro t p h
    simp [Store.empty, Store.parent] at h
  · intro a account h
    simp [Store.empty] at h
  · intro r hr
    simp [hdebits] at hr
  · intro a p
    rw [hunder]
    rfl
  · intro a r hr
    simp [hunder] at hr

theorem mem_debitsUnder {s : Store} {a : String} {r : LedgerRow} :
    r ∈ debitsUnder s a ↔ r ∈ s.debits ∧ Above s.parent r.tenantId a := by
  simp [debitsUnder]

theorem isDaily_iff {s : Store} {a : String} {account : Account}
    (h : s.accounts.get? a = some account) : isDaily s a ↔ account.resetPeriod = "daily" := by
  simp [isDaily, h]

/-- Debits of one calendar period below an account are booked in one period. -/
theorem Books.period_eq {s : Store} (h : Books s) {a : String} {account : Account}
    (ha : s.accounts.get? a = some account) {day : Date} {q r : LedgerRow}
    (hq : q ∈ debitsUnder s a) (hr : r ∈ debitsUnder s a)
    (hqday : SamePeriod account.resetPeriod q.createdAt day)
    (hrday : SamePeriod account.resetPeriod r.createdAt day) : q.period = r.period := by
  obtain ⟨-, qAccount, hqAccount, hqPeriod⟩ := h.rows q (mem_debitsUnder.mp hq).1
  obtain ⟨-, rAccount, hrAccount, hrPeriod⟩ := h.rows r (mem_debitsUnder.mp hr).1
  obtain ⟨hcovers, hshared⟩ := h.periods a r hr
  have hkinds := hshared q hq
  rw [isDaily_iff hqAccount, isDaily_iff hrAccount] at hkinds
  rw [isDaily_iff hrAccount, isDaily_iff ha] at hcovers
  rw [hqPeriod, hrPeriod, getCurrentPeriod_congr hkinds]
  apply getCurrentPeriod_of_same
  refine ⟨?_, ?_, ?_⟩
  · intro hdaily
    rw [hqday.1 (hcovers hdaily), hrday.1 (hcovers hdaily)]
  · rw [hqday.2.1, hrday.2.1]
  · rw [hqday.2.2, hrday.2.2]

theorem Books.noOverdraft {s : Store} (h : Books s) : NoOverdraft s := by
  intro a account ha day
  obtain ⟨hlimit, hspent⟩ := h.limits a account ha
  unfold debitedIn
  by_cases hnone :
      (debitsUnder s a).filter (fun r => SamePeriod account.resetPeriod r.createdAt day) = []
  · rw [hnone]
    exact hlimit
  obtain ⟨first, hfirst⟩ := List.exists_mem_of_ne_nil _ hnone
  simp only [List.mem_filter, decide_eq_true_eq] at hfirst
  have hamounts : ∀ r ∈ debitsUnder s a, 0 ≤ r.amountMicro :=
    fun r hr => (h.rows r (mem_debitsUnder.mp hr).1).1
  have hone : ∀ r ∈ debitsUnder s a,
      decide (SamePeriod account.resetPeriod r.createdAt day) = true →
        decide (r.period = first.period) = true := by
    intro r hr hday
    simp only [decide_eq_true_eq] at hday ⊢
    exact h.period_eq ha hr hfirst.1 hday hfirst.2
  have hle := total_filter_le hamounts hone
  rw [← h.booked] at hle
  exact hle.trans (hspent first.period)

/-! ## A new account -/

/-- A row of the debits was made on an account, and so were those above it. -/
theorem Books.mem_keys {s : Store} (h : Books s) {a : String} {r : LedgerRow}
    (hr : r ∈ debitsUnder s a) : r.tenantId ∈ s.accounts.keys ∧ a ∈ s.accounts.keys := by
  obtain ⟨hdebit, habove⟩ := mem_debitsUnder.mp hr
  obtain ⟨-, account, hacc, -⟩ := h.rows r hdebit
  have htenant := (Dict.mem_keys_iff _ _).mpr ⟨account, hacc⟩
  exact ⟨htenant, h.linked.above htenant habove⟩

theorem isDaily_of_new {s s' : Store} {t : String} {account : Account}
    (haccounts : s'.accounts = s.accounts.set t account) (ht : t ∉ s.accounts.keys) {a : String}
    (ha : a ∈ s.accounts.keys) : isDaily s' a ↔ isDaily s a := by
  unfold isDaily
  rw [get?_of_new haccounts ht ha]

theorem books_createAccount {s s' : Store} {t : String} {parentId : Option String} {limit : Rat}
    {reset : String} {now : Date} (h : Books s) (ht : t ∉ s.accounts.keys)
    (hlimit : 0 ≤ usdToMicro limit)
    (hcall : createAccount s t parentId limit reset now = .ok s') : Books s' := by
  obtain ⟨haccounts, -, hledger, hspent⟩ := createAccount_ok hcall
  have hdebits := debits_of_ledger hledger
  have hget := fun a (ha : a ∈ s.accounts.keys) => get?_of_new haccounts ht ha
  have hdaily := fun a (ha : a ∈ s.accounts.keys) => isDaily_of_new haccounts ht ha
  have hunder : ∀ a, debitsUnder s' a = debitsUnder s a := by
    intro a
    unfold debitsUnder
    rw [hdebits]
    apply List.filter_congr
    intro r hr
    obtain ⟨-, account, hacc, -⟩ := h.rows r hr
    have hmem := (Dict.mem_keys_iff _ _).mpr ⟨account, hacc⟩
    simp only [decide_eq_decide]
    exact above_of_new h.linked haccounts ht hmem a
  have hnew : debitsUnder s t = [] := by
    rw [List.eq_nil_iff_forall_not_mem]
    exact fun r hr => ht (h.mem_keys hr).2
  refine ⟨wellLinked_createAccount h.linked hcall, ?_, ?_, ?_, ?_⟩
  · intro a account ha
    by_cases hta : t = a
    · subst hta
      rw [haccounts, Dict.get?_set_self] at ha
      cases ha
      refine ⟨hlimit, ?_⟩
      intro p
      rw [hspent, h.booked, hnew]
      exact hlimit
    · rw [haccounts, Dict.get?_set_ne _ _ hta] at ha
      obtain ⟨hle, hwithin⟩ := h.limits a account ha
      refine ⟨hle, ?_⟩
      intro p
      rw [hspent]
      exact hwithin p
  · intro r hr
    rw [hdebits] at hr
    obtain ⟨hamount, account, hacc, hperiod⟩ := h.rows r hr
    refine ⟨hamount, account, ?_, hperiod⟩
    rw [hget r.tenantId ((Dict.mem_keys_iff _ _).mpr ⟨account, hacc⟩)]
    exact hacc
  · intro a p
    rw [hspent, hunder]
    exact h.booked a p
  · intro a r hr
    rw [hunder] at hr ⊢
    obtain ⟨htenant, ha⟩ := h.mem_keys hr
    obtain ⟨hcovers, hshared⟩ := h.periods a r hr
    rw [hdaily _ htenant, hdaily _ ha]
    refine ⟨hcovers, ?_⟩
    intro q hq
    rw [hdaily _ (h.mem_keys hq).1]
    exact hshared q hq

/-! ## A debit -/

/-- A climb charges no account over its limit. -/
theorem limits_of_climb {sha : String → String} {s s' : Store} {t period key : String}
    {amount : Int} {now : Date}
    (h : recursiveCheckAndUpdate sha s t amount period key now = .ok s')
    (hlimits : ∀ a account, s.accounts.get? a = some account →
      ∀ p, s.spent a p ≤ account.limitMicro) :
    ∀ a account, s.accounts.get? a = some account → ∀ p, s'.spent a p ≤ account.limitMicro := by
  obtain ⟨path, hclimb, -⟩ := climbs_of_climb h
  let P : Store → Prop := fun u => u.accounts = s.accounts ∧
    ∀ a account, s.accounts.get? a = some account → ∀ p, u.spent a p ≤ account.limitMicro
  have hkeep : ∀ x u u' goOn, P u →
      checkAndUpdate sha amount period key now x u = .ok (u', goOn) → P u' := by
    intro x u u' goOn hP hv
    cases goOn with
    | false =>
      obtain ⟨rfl, -⟩ := checkAndUpdate_stops hv
      exact hP
    | true =>
      obtain ⟨rfl, -, account, hacc, hle⟩ := checkAndUpdate_goes hv
      rw [hP.1] at hacc
      refine ⟨hP.1, ?_⟩
      intro a account' ha p
      rw [spent_charge]
      by_cases hhere : a = x ∧ p = period
      · obtain ⟨rfl, rfl⟩ := hhere
        rw [hacc] at ha
        cases ha
        simpa using hle
      · have := hP.2 a account' ha p
        simpa [hhere] using this
  exact (hclimb.keeps hkeep ⟨rfl, hlimits⟩).2

/-- The limits hold after a debit. -/
theorem limits_of_debit {sha : String → String} {s s' : Store} {t : String} {account : Account}
    (ht : s.accounts.get? t = some account) {est : Rat} {runId model key : String} {now : Date}
    (hkey : ¬ s.keyUsed key) (h : debit sha s t est runId model key now = .ok s')
    (hlimits : ∀ a account, s.accounts.get? a = some account →
      ∀ p, s.spent a p ≤ account.limitMicro) :
    ∀ a account, s.accounts.get? a = some account → ∀ p, s'.spent a p ≤ account.limitMicro := by
  obtain ⟨u, gone, hclimb, -, rfl⟩ := debit_ok ht hkey h
  have hwithin := limits_of_climb hclimb hlimits
  exact hwithin

theorem mem_debitsUnder_booked {s s' : Store} {row : LedgerRow} (h : Booked s s' row) {a : String}
    {r : LedgerRow} :
    r ∈ debitsUnder s' a ↔ r ∈ debitsUnder s a ∨ r = row ∧ Above s.parent row.tenantId a := by
  have hparent : s'.parent = s.parent := by
    unfold Store.parent
    rw [h.accounts]
  rw [mem_debitsUnder, mem_debitsUnder, h.debits, hparent, List.mem_append, List.mem_singleton,
    or_and_right]
  apply or_congr Iff.rfl
  constructor
  · intro ⟨hr, habove⟩
    rw [hr] at habove
    exact ⟨hr, habove⟩
  · intro ⟨hr, habove⟩
    rw [hr]
    exact ⟨rfl, habove⟩

/-- The row is added to the debits under the accounts above its tenant. -/
theorem debitsUnder_booked {s s' : Store} {row : LedgerRow} (h : Booked s s' row) (a : String) :
    debitsUnder s' a = debitsUnder s a ++ if Above s.parent row.tenantId a then [row] else [] := by
  have hparent : s'.parent = s.parent := by
    unfold Store.parent
    rw [h.accounts]
  unfold debitsUnder
  rw [h.debits, List.filter_append]
  simp only [hparent]
  by_cases habove : Above s.parent row.tenantId a
  · simp [habove]
  · simp [habove]

theorem books_booked {s s' : Store} {row : LedgerRow} (hbooks : Books s) (h : Booked s s' row)
    (hamount : 0 ≤ row.amountMicro) {account : Account}
    (haccount : s.accounts.get? row.tenantId = some account)
    (hperiod : row.period = getCurrentPeriod row.createdAt account.resetPeriod)
    (hone : OnePeriod s row.tenantId)
    (hlimits : ∀ a account, s.accounts.get? a = some account →
      ∀ p, s'.spent a p ≤ account.limitMicro) : Books s' := by
  have hdaily : ∀ a, isDaily s' a ↔ isDaily s a := by
    intro a
    unfold isDaily
    rw [h.accounts]
  refine ⟨wellLinked_of_accounts h.accounts hbooks.linked, ?_, ?_, ?_, ?_⟩
  · intro a account' ha
    rw [h.accounts] at ha
    exact ⟨(hbooks.limits a account' ha).1, hlimits a account' ha⟩
  · intro r hr
    rw [h.accounts]
    rw [h.debits, List.mem_append, List.mem_singleton] at hr
    rcases hr with hr | rfl
    · exact hbooks.rows r hr
    · exact ⟨hamount, account, haccount, hperiod⟩
  · intro a p
    rw [debitsUnder_booked h, List.filter_append, total_append, ← hbooks.booked]
    by_cases habove : Above s.parent row.tenantId a
    · by_cases hp : p = row.period
      · subst hp
        rw [h.counted.charged a habove]
        simp [habove]
      · have hne : ¬ row.period = p := fun e => hp e.symm
        rw [h.counted.others a p (fun hc => hp hc.2)]
        simp [habove, hne]
    · rw [h.counted.others a p (fun hc => habove hc.1)]
      simp [habove]
  · intro a r hr
    simp only [hdaily]
    rcases (mem_debitsUnder_booked h).mp hr with hr | ⟨rfl, habove⟩
    · obtain ⟨hcovers, hshared⟩ := hbooks.periods a r hr
      refine ⟨hcovers, ?_⟩
      intro q hq
      rcases (mem_debitsUnder_booked h).mp hq with hq | ⟨rfl, habove⟩
      · exact hshared q hq
      · exact (hone.shared a habove r hr).symm
    · refine ⟨hone.covers a habove, ?_⟩
      intro q hq
      rcases (mem_debitsUnder_booked h).mp hq with hq | ⟨rfl, -⟩
      · exact hone.shared a habove q hq
      · exact Iff.rfl

theorem books_debit {sha : String → String} (hsha : Function.Injective sha) {s s' : Store}
    {t : String} {est : Rat} {runId model key : String} {now : Date} (h : Books s)
    (hest : 0 ≤ est)
    (hkeeps : KeepsBooks sha s (.checkAndDebit t est runId model key now))
    (hcall : debit sha s t est runId model key now = .ok s') : Books s' := by
  by_cases hkey : s.keyUsed key
  · rw [debit_of_keyUsed hkey] at hcall
    cases hcall
    exact h
  rcases hacc : s.accounts.get? t with _ | account
  · rw [debit_of_no_account hacc] at hcall
    cases hcall
    exact h
  obtain ⟨hplain, hone⟩ := hkeeps.resolve_left hkey account hacc
  have hbooked := booked_of_debit hsha h.linked hacc hkey hplain hcall
  have hlimits := limits_of_debit hacc hkey hcall
    (fun a account' ha => (h.limits a account' ha).2)
  exact books_booked h hbooked (usdToMicro_nonneg hest) hacc rfl hone hlimits

/-! ## Runs -/

theorem books_step {sha : String → String} (hsha : Function.Injective sha) {s s' : Store}
    {call : BudgetCall} (h : Books s)
    (hstep : ((tree sha).restrict (KeepsBooks sha)).step s call s') : Books s' := by
  obtain ⟨⟨hcall, htree⟩, hkeeps⟩ := hstep
  cases call with
  | createAccount => exact books_createAccount h htree hkeeps hcall
  | checkAndDebit => exact books_debit hsha h htree hkeeps hcall
  | adjustActual => exact absurd htree id

/-- No account of a tree that does not change, nor the accounts below it
together, debits more than its limit in a calendar period of its own, in any run
of debits with plain chains that fit the periods above them. -/
theorem no_overdraft_in_the_tree {sha : String → String} (hsha : Function.Injective sha)
    {s : Store} (h : Reachable ((tree sha).restrict (KeepsBooks sha)) s) : NoOverdraft s := by
  have hbooks : Books s := by
    apply h.invariant
    · intro u hu
      cases hu
      exact books_empty
    · exact fun u call u' hu hstep => books_step hsha hu hstep
  exact hbooks.noOverdraft

/-! ## Two days of one month -/

/-- The digests of the texts that the calls below derive keys from. -/
def digests : Dict String String where
  entries := [
    ("k1|c|2024-05-03",
      "bc42bbd2b8d92ba58886ad0389da1eada1c90feadeaa43d38c3877ad240ec5dd"),
    ("k1|p|2024-05-03",
      "5470d477def92ff44a83db0beca2df525005c13e254a76792c14c3693dd9f45e"),
    ("k2|c|2024-05-04",
      "224126545435eb99f9d1f1d8336bf17d0419ca1b471c2be93ab1a75e4b4a3308"),
    ("k2|p|2024-05-04",
      "6e4c0de7b528574ccfad3211674e2e437e0a2b52c12bc0564083ff8ad70bbd33"),
    ("k1|m|2024-05",
      "7e272f985984733116872bef9d89081ae4245da275985a543ec9ac583d9f38e3"),
    ("k1|p|2024-05",
      "e13fffb2653d078386d13f3669e68a34e5097b8b8fbb0629f3e5e44f408802e4")]
  nodup := by decide

theorem digests_injective : Function.Injective (digestOf digests) :=
  digestOf_injective (by decide) (by decide)

instance (s : Store) : (call : BudgetCall) → Decidable (TreeCall s call)
  | .createAccount tenantId .. => inferInstanceAs (Decidable (tenantId ∉ s.accounts.keys))
  | .checkAndDebit _ estimatedUsd .. => inferInstanceAs (Decidable (0 ≤ estimatedUsd))
  | .adjustActual .. => isFalse id

instance (sha : String → String) (s : Store) : (call : BudgetCall) → Decidable (KeepsBooks sha s call)
  | .createAccount _ _ limitUsd _ _ => inferInstanceAs (Decidable (0 ≤ usdToMicro limitUsd))
  | .checkAndDebit tenantId _ _ _ key now =>
    inferInstanceAs (Decidable (s.keyUsed key ∨ ∀ account ∈ s.accounts.get? tenantId,
      Plain sha s tenantId key (getCurrentPeriod now account.resetPeriod) ∧ OnePeriod s tenantId))
  | .adjustActual .. => isTrue trivial

/-- The store after calls that all meet a condition, when none of them raises. -/
def runWhere (allowed : Store → BudgetCall → Prop) [∀ s call, Decidable (allowed s call)]
    (calls : List BudgetCall) (s : Store) : Option Store :=
  calls.foldlM (fun s call =>
    if allowed s call then (transact (digestOf digests) s call).toOption else none) s

theorem run_of_runWhere {allowed : Store → BudgetCall → Prop}
    [∀ s call, Decidable (allowed s call)] {calls : List BudgetCall} {s s' : Store}
    (h : runWhere allowed calls s = some s') :
    Run ((ledger (digestOf digests)).restrict allowed) s calls s' := by
  apply run_of_foldlM _ h
  intro u call u' hstep
  by_cases hallowed : allowed u call
  · rw [if_pos hallowed] at hstep
    exact ⟨transact_of_toOption hstep, hallowed⟩
  · rw [if_neg hallowed] at hstep
    cases hstep

/-- A parent with a child that resets each day and one that resets each month. -/
def family : List BudgetCall := [
  .createAccount "p" none 10 "monthly" ⟨2024, 5, 3⟩,
  .createAccount "c" (some "p") 10 "daily" ⟨2024, 5, 3⟩,
  .createAccount "m" (some "p") 10 "monthly" ⟨2024, 5, 3⟩]

def monthlyDebit : List BudgetCall := family ++ [
  .checkAndDebit "m" 10 "r1" "gpt" "k1" ⟨2024, 5, 3⟩]

def afterMonthlyDebit : Store :=
  (runWhere (fun s call => TreeCall s call ∧ KeepsBooks (digestOf digests) s call) monthlyDebit
    .empty).getD .empty

theorem monthlyDebit_run : Run ((tree (digestOf digests)).restrict (KeepsBooks (digestOf digests)))
    .empty monthlyDebit afterMonthlyDebit := by
  let allowed : Store → BudgetCall → Prop :=
    fun s call => TreeCall s call ∧ KeepsBooks (digestOf digests) s call
  have hrun : Run ((ledger (digestOf digests)).restrict allowed) .empty monthlyDebit
      afterMonthlyDebit := run_of_runWhere (by decide +kernel)
  have hstep : ∀ s call s', ((ledger (digestOf digests)).restrict allowed).step s call s' →
      ((tree (digestOf digests)).restrict (KeepsBooks (digestOf digests))).step s call s' :=
    fun s call s' h => ⟨⟨h.1, h.2.1⟩, h.2.2⟩
  exact hrun.mono hstep

theorem monthly_debits_stay_within_the_limit : NoOverdraft afterMonthlyDebit := by
  exact no_overdraft_in_the_tree digests_injective
    ⟨.empty, monthlyDebit, rfl, monthlyDebit_run⟩

def dailyDebits : List BudgetCall := family ++ [
  .checkAndDebit "c" 10 "r1" "gpt" "k1" ⟨2024, 5, 3⟩,
  .checkAndDebit "c" 10 "r2" "gpt" "k2" ⟨2024, 5, 4⟩]

def afterDailyDebits : Store := (runWhere TreeCall dailyDebits .empty).getD .empty

/-- The parent may debit 10 in a month, and its child debits 20. -/
theorem daily_debits_pass_a_monthly_limit :
    Function.Injective (digestOf digests) ∧
      Reachable (tree (digestOf digests)) afterDailyDebits ∧ ¬ NoOverdraft afterDailyDebits := by
  have hrun : Run (tree (digestOf digests)) .empty dailyDebits afterDailyDebits :=
    run_of_runWhere (by decide +kernel)
  refine ⟨digests_injective, ⟨.empty, dailyDebits, rfl, hrun⟩, ?_⟩
  intro h
  have hparent : afterDailyDebits.accounts.get? "p" = some ⟨none, 10000000, "monthly"⟩ := by
    decide +kernel
  have hover : ¬ debitedIn afterDailyDebits "p" "monthly" ⟨2024, 5, 3⟩ ≤ 10000000 := by
    decide +kernel
  exact hover (h "p" _ hparent ⟨2024, 5, 3⟩)

end orchestra.overdraft
