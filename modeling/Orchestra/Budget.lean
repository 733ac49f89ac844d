-- The persistent budget (`cost/persistent_budget.py`): accounts with parents, a
-- ledger whose rows have unique keys, and one balance for each account and
-- period. A call is one transaction, and reads the clock once.
import Orchestra.Lib.Climb
import Orchestra.Lib.Dict
import Mathlib.Data.List.Sort
import Mathlib.Data.Rat.Floor

open dicts climbs

namespace orchestra.budget

/-! ## Money -/

def microPerUsd : Int := 1000000

/-- `round`: the even neighbour of a number half way. -/
def roundHalfEven (q : Rat) : Int :=
  if q - q.floor < 1 / 2 then q.floor
  else if 1 / 2 < q - q.floor then q.floor + 1
  else if q.floor % 2 = 0 then q.floor
  else q.floor + 1

def usdToMicro (usd : Rat) : Int := roundHalfEven (usd * microPerUsd)

def microToUsd (micro : Int) : Rat := micro / microPerUsd

theorem roundHalfEven_nonneg {q : Rat} (h : 0 ≤ q) : 0 ≤ roundHalfEven q := by
  have hbelow : 0 ≤ q.floor := Rat.le_floor_iff.mpr (by simpa using h)
  unfold roundHalfEven
  split_ifs <;> omega

theorem usdToMicro_nonneg {usd : Rat} (h : 0 ≤ usd) : 0 ≤ usdToMicro usd := by
  apply roundHalfEven_nonneg
  apply mul_nonneg h
  simp [microPerUsd]

/-! ## Periods -/

/-- A day of the calendar, in UTC. -/
structure Date where
  year : Nat
  month : Nat
  day : Nat
deriving DecidableEq

/-- A number in at least `width` digits. -/
def padded (width n : Nat) : String := "".pushn '0' (width - (toString n).length) ++ toString n

def getCurrentPeriod (now : Date) (periodType : String) : String :=
  if periodType = "daily" then
    padded 4 now.year ++ "-" ++ padded 2 now.month ++ "-" ++ padded 2 now.day
  else padded 4 now.year ++ "-" ++ padded 2 now.month

/-! ## Tables -/

structure Account where
  parentId : Option String
  limitMicro : Int
  resetPeriod : String
deriving DecidableEq

inductive EntryType
  | debitEstimate
  | parentDebit
  | creditCorrection
deriving DecidableEq

structure LedgerRow where
  tenantId : String
  entryType : EntryType
  amountMicro : Int
  runId : Option String
  model : Option String
  idempotencyKey : String
  createdAt : Date
  period : String
deriving DecidableEq

/-- The rows of the ledger stand in the order of their ids. -/
structure Store where
  accounts : Dict String Account
  ledger : List LedgerRow
  balances : Dict (String × String) Int
deriving DecidableEq

inductive BudgetError
  | exceeded (tenantId : String) (spentMicro limitMicro : Int)
  | cyclic (tenantId : String) (cyclePath : List String)
  | uniqueKey (idempotencyKey : String)
  | foreignKey (parentId : Option String)
deriving DecidableEq

namespace Store

def empty : Store := ⟨.empty, [], .empty⟩

/-- The balance of an account in a period, 0 where there is no row. -/
def spent (s : Store) (tenantId period : String) : Int :=
  (s.balances.get? (tenantId, period)).getD 0

def keyUsed (s : Store) (key : String) : Prop := ∃ r ∈ s.ledger, r.idempotencyKey = key

instance (s : Store) (key : String) : Decidable (s.keyUsed key) :=
  inferInstanceAs (Decidable (∃ r ∈ s.ledger, r.idempotencyKey = key))

def insertRow (s : Store) (r : LedgerRow) : Store := { s with ledger := s.ledger ++ [r] }

/-- Insert the balance, or add to the one that is there. -/
def addSpent (s : Store) (tenantId period : String) (amount : Int) : Store :=
  { s with balances := s.balances.set (tenantId, period) (s.spent tenantId period + amount) }

/-- The parent of an account, as the table has it. -/
def parent (s : Store) (tenantId : String) : Option String :=
  (s.accounts.get? tenantId).bind Account.parentId

/-- The parent that the code goes on to: an empty id is taken for none. -/
def climbsTo (s : Store) (tenantId : String) : Option String :=
  (s.parent tenantId).filter (· ≠ "")

/-- The estimates of the ledger, one row for each debit that a caller made. -/
def debits (s : Store) : List LedgerRow := s.ledger.filter (·.entryType = .debitEstimate)

end Store

/-! ## Accounts -/

def createAccount (s : Store) (tenantId : String) (parentId : Option String) (limitUsd : Rat)
    (resetPeriod : String) (now : Date) : Except BudgetError Store :=
  let accounts := s.accounts.set tenantId ⟨parentId, usdToMicro limitUsd, resetPeriod⟩
  let period := getCurrentPeriod now resetPeriod
  if parentId.all fun p => (accounts.get? p).isSome then
    .ok { s with
      accounts
      balances :=
        if (s.balances.get? (tenantId, period)).isSome then s.balances
        else s.balances.set (tenantId, period) 0 }
  else .error (.foreignKey parentId)

def getRemainingUsd (s : Store) (tenantId : String) (now : Date) : Rat :=
  match s.accounts.get? tenantId with
  | none => 1000000
  | some account =>
    let spentMicro := s.spent tenantId (getCurrentPeriod now account.resetPeriod)
    microToUsd (max 0 (account.limitMicro - spentMicro))

def cycleError (tenantId : String) (visited : List String) : BudgetError :=
  .cyclic tenantId (visited.insertionSort (· ≤ ·) ++ [tenantId])

/-- A climb visits an account at most once, and then one that is no account. -/
def climbFuel (s : Store) : Nat := s.accounts.keys.length + 1

/-! ## Debits -/

section

variable (sha : String → String)

/-- The key of the row that a debit gets at an account of its chain. `sha` is
the hexadecimal SHA-256 of the text. -/
def parentIdempotencyKey (childKey parentId period : String) : String :=
  "parent:" ++ sha (childKey ++ "|" ++ parentId ++ "|" ++ period)

def parentRow (amount : Int) (period key : String) (now : Date) (tenantId : String) : LedgerRow where
  tenantId
  entryType := .parentDebit
  amountMicro := amount
  runId := none
  model := none
  idempotencyKey := parentIdempotencyKey sha key tenantId period
  createdAt := now
  period

/-- The row and the addition that one account of the chain gets. -/
def charge (amount : Int) (period key : String) (now : Date) (tenantId : String) (s : Store) :
    Store :=
  (s.insertRow (parentRow sha amount period key now tenantId)).addSpent tenantId period amount

/-- One visit of `_recursive_check_and_update`. The climb stops at an account
that does not exist, and at one whose row is there already. -/
def checkAndUpdate (amount : Int) (period key : String) (now : Date) (tenantId : String)
    (s : Store) : Except BudgetError (Store × Bool) :=
  match s.accounts.get? tenantId with
  | none => .ok (s, false)
  | some account =>
    let spent := s.spent tenantId period
    if account.limitMicro < spent + amount then
      .error (.exceeded tenantId (spent + amount) account.limitMicro)
    else if s.keyUsed (parentIdempotencyKey sha key tenantId period) then .ok (s, false)
    else .ok (charge sha amount period key now tenantId s, true)

def recursiveCheckAndUpdate (s : Store) (tenantId : String) (amount : Int) (period key : String)
    (now : Date) : Except BudgetError Store :=
  climb s.climbsTo (checkAndUpdate sha amount period key now) cycleError (climbFuel s) [] tenantId s

def estimateRow (tenantId : String) (amount : Int) (runId model key : String) (now : Date)
    (period : String) : LedgerRow where
  tenantId
  entryType := .debitEstimate
  amountMicro := amount
  runId := some runId
  model := some model
  idempotencyKey := key
  createdAt := now
  period

/-- The transaction of `check_and_debit`. -/
def debit (s : Store) (tenantId : String) (estimatedUsd : Rat) (runId model key : String)
    (now : Date) : Except BudgetError Store :=
  if s.keyUsed key then .ok s
  else
    match s.accounts.get? tenantId with
    | none => .ok s
    | some account =>
      let period := getCurrentPeriod now account.resetPeriod
      let amount := usdToMicro estimatedUsd
      match recursiveCheckAndUpdate sha s tenantId amount period key now with
      | .error e => .error e
      | .ok s' =>
        if s'.keyUsed key then .error (.uniqueKey key)
        else .ok (s'.insertRow (estimateRow tenantId amount runId model key now period))

def checkAndDebit (s : Store) (tenantId : String) (estimatedUsd : Rat) (runId model key : String)
    (now : Date) : Except BudgetError (Store × Rat) :=
  match debit sha s tenantId estimatedUsd runId model key now with
  | .error e => .error e
  | .ok s' => .ok (s', getRemainingUsd s' tenantId now)

end

/-! ## Settlements -/

/-- `UPDATE` writes only the rows that are there. -/
def updateSpent (s : Store) (tenantId period : String) (amount : Int) : Store :=
  if (s.balances.get? (tenantId, period)).isSome then s.addSpent tenantId period amount else s

/-- One visit of `_recursive_update_balance`. -/
def updateBalance (amount : Int) (period tenantId : String) (s : Store) :
    Except BudgetError (Store × Bool) :=
  .ok (updateSpent s tenantId period amount, true)

def recursiveUpdateBalance (s : Store) (tenantId : String) (amount : Int) (period : String) :
    Except BudgetError Store :=
  climb s.climbsTo (updateBalance amount period) cycleError (climbFuel s) [] tenantId s

/-- The first estimate of the ledger for a run of a tenant. -/
def findEstimate (s : Store) (tenantId runId : String) : Option LedgerRow :=
  s.ledger.find? fun r =>
    r.runId = some runId ∧ r.tenantId = tenantId ∧ r.entryType = .debitEstimate

def correctionRow (tenantId : String) (amount : Int) (runId key : String) (now : Date)
    (period : String) : LedgerRow where
  tenantId
  entryType := .creditCorrection
  amountMicro := amount
  runId := some runId
  model := none
  idempotencyKey := key
  createdAt := now
  period

def adjustActual (s : Store) (tenantId runId : String) (actualUsd : Rat) (key : String)
    (now : Date) : Except BudgetError Store :=
  match findEstimate s tenantId runId with
  | none => .ok s
  | some r =>
    let diffMicro := usdToMicro actualUsd - r.amountMicro
    if s.keyUsed key then .error (.uniqueKey key)
    else
      recursiveUpdateBalance
        (s.insertRow (correctionRow tenantId (-diffMicro) runId key now r.period))
        tenantId diffMicro r.period

/-! ## The manager -/

def checkBudget (s : Store) (tenantId : String) (now : Date) : Bool :=
  0 < getRemainingUsd s tenantId now

def reserve (sha : String → String) (s : Store) (tenantId : String) (estimatedCost : Rat)
    (runId model key : String) (now : Date) : Except BudgetError (Store × Rat) :=
  checkAndDebit sha s tenantId estimatedCost runId model key now

def finalize (s : Store) (tenantId runId : String) (actualCost : Rat) (key : String)
    (now : Date) : Except BudgetError Store :=
  adjustActual s tenantId runId actualCost key now

/-! ## Reads after writes -/

namespace Store

@[simp] theorem spent_insertRow (s : Store) (r : LedgerRow) (a p : String) :
    (s.insertRow r).spent a p = s.spent a p := rfl

@[simp] theorem accounts_insertRow (s : Store) (r : LedgerRow) :
    (s.insertRow r).accounts = s.accounts := rfl

@[simp] theorem accounts_addSpent (s : Store) (t p : String) (n : Int) :
    (s.addSpent t p n).accounts = s.accounts := rfl

@[simp] theorem ledger_addSpent (s : Store) (t p : String) (n : Int) :
    (s.addSpent t p n).ledger = s.ledger := rfl

theorem spent_addSpent (s : Store) (t p a q : String) (n : Int) :
    (s.addSpent t p n).spent a q = s.spent a q + if a = t ∧ q = p then n else 0 := by
  unfold spent addSpent
  rw [Dict.get?_set]
  by_cases h : a = t ∧ q = p
  · obtain ⟨rfl, rfl⟩ := h
    simp [spent]
  · have hne : ¬ (t, p) = (a, q) := by
      intro e
      cases e
      exact h ⟨rfl, rfl⟩
    simp [h, hne]

@[simp] theorem keyUsed_insertRow (s : Store) (r : LedgerRow) (key : String) :
    (s.insertRow r).keyUsed key ↔ s.keyUsed key ∨ key = r.idempotencyKey := by
  simp only [keyUsed, insertRow, List.mem_append, List.mem_singleton]
  constructor
  · intro ⟨q, hq, hkey⟩
    rcases hq with hq | rfl
    · exact Or.inl ⟨q, hq, hkey⟩
    · exact Or.inr hkey.symm
  · intro h
    rcases h with ⟨q, hq, hkey⟩ | rfl
    · exact ⟨q, Or.inl hq, hkey⟩
    · exact ⟨r, Or.inr rfl, rfl⟩

@[simp] theorem keyUsed_addSpent (s : Store) (t p : String) (n : Int) (key : String) :
    (s.addSpent t p n).keyUsed key ↔ s.keyUsed key := Iff.rfl

@[simp] theorem parent_insertRow (s : Store) (r : LedgerRow) :
    (s.insertRow r).parent = s.parent := rfl

@[simp] theorem climbsTo_insertRow (s : Store) (r : LedgerRow) :
    (s.insertRow r).climbsTo = s.climbsTo := rfl

theorem debits_insertRow (s : Store) (r : LedgerRow) :
    (s.insertRow r).debits = s.debits ++ if r.entryType = .debitEstimate then [r] else [] := by
  unfold debits insertRow
  rw [List.filter_append]
  by_cases h : r.entryType = .debitEstimate
  · simp [h]
  · simp [h]

@[simp] theorem debits_addSpent (s : Store) (t p : String) (n : Int) :
    (s.addSpent t p n).debits = s.debits := rfl

end Store

theorem climbsTo_eq_some {s : Store} {t p : String} :
    s.climbsTo t = some p ↔ s.parent t = some p ∧ p ≠ "" := by
  simp [Store.climbsTo, Option.filter_eq_some_iff]

/-- Only accounts have a parent. -/
theorem mem_keys_of_parent {s : Store} {t p : String} (h : s.parent t = some p) :
    t ∈ s.accounts.keys := by
  rw [Dict.mem_keys_iff]
  unfold Store.parent at h
  rcases hacc : s.accounts.get? t with _ | account
  · simp [hacc] at h
  · exact ⟨account, rfl⟩

/-- The digests of a table. Any other text is marked and left as it is. -/
def digestOf (table : Dict String String) (text : String) : String :=
  (table.get? text).getD ("text " ++ text)

theorem digestOf_injective {table : Dict String String}
    (hvalues : (table.entries.map Prod.snd).Nodup)
    (hmarks : ∀ e ∈ table.entries, e.2.toList.head? ≠ some 't') :
    Function.Injective (digestOf table) := by
  have hmark : ∀ a v text, table.get? a = some v → v ≠ "text " ++ text := by
    intro a v text ha hv
    apply hmarks (a, v) ((Dict.mem_entries_iff _ _ _).mpr ha)
    simp [hv]
  intro a b h
  unfold digestOf at h
  rcases ha : table.get? a with _ | v <;> rcases hb : table.get? b with _ | w
  · simpa [ha, hb] using h
  · simp only [ha, hb, Option.getD_none, Option.getD_some] at h
    exact absurd h.symm (hmark b w a hb)
  · simp only [ha, hb, Option.getD_none, Option.getD_some] at h
    exact absurd h (hmark a v b ha)
  · simp only [ha, hb, Option.getD_some] at h
    subst h
    have hav := (Dict.mem_entries_iff _ _ _).mpr ha
    have hbv := (Dict.mem_entries_iff _ _ _).mpr hb
    exact congrArg Prod.fst (List.inj_on_of_nodup_map hvalues hav hbv rfl)

end orchestra.budget
