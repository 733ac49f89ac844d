-- A debit as the transaction that it is (`check_and_debit`). Its statements write to the
-- open transaction, level by level of the tenant's chain. A commit keeps what they have
-- written, and a rollback puts back what was there before.
import Orchestra.Billing

open dicts climbs machine orchestra.budget orchestra.billing

namespace orchestra.transactions

/-! ## The transaction -/

/-- The tables as other connections see them, and as the open transaction has them. -/
structure Database where
  committed : Store
  working : Store

def Database.begin (db : Database) : Database := { db with working := db.committed }

def Database.write (db : Database) (tables : Store) : Database := { db with working := tables }

def Database.commit (db : Database) : Database := { db with committed := db.working }

def Database.rollback (db : Database) : Database := { db with working := db.committed }

section

variable (sha : String → String)

/-- `check_and_debit`. There is no result when the walk up the chain runs out of fuel. -/
def Database.checkAndDebit (fuel : Nat) (db : Database) (tenantId : String) (estimatedUsd : Rat)
    (runId model key : String) (now : Date) : Option (Database × Except BudgetError Rat) :=
  let amount := usdToMicro estimatedUsd
  let db := db.begin
  if db.working.keyUsed key then
    some (db.rollback, .ok (getRemainingUsd db.rollback.working tenantId now))
  else
    match db.working.accounts.get? tenantId with
    | none => some (db.rollback, .ok 1000000)
    | some account =>
      let period := getCurrentPeriod now account.resetPeriod
      match trail db.working.climbsTo (checkAndUpdate sha amount period key now) cycleError fuel []
        tenantId db.working with
      | none => none
      | some (tables, .error e) => some ((db.write tables).rollback, .error e)
      | some (tables, .ok ()) =>
        -- the row of the debit itself comes last, and may find its key taken
        if tables.keyUsed key then some ((db.write tables).rollback, .error (.uniqueKey key))
        else
          let db := (db.write (tables.insertRow
            (estimateRow tenantId amount runId model key now period))).commit
          some (db, .ok (getRemainingUsd db.working tenantId now))

variable {sha}

/-! ## What a transaction leaves -/

variable {amount : Int} {period key : String} {now : Date}

/-- Each account of the list exists and gets a key of its own that is free. -/
structure Chargeable (sha : String → String) (s : Store) (period key : String)
    (path : List String) : Prop where
  accounts : ∀ a ∈ path, a ∈ s.accounts.keys
  free : ∀ a ∈ path, ¬s.keyUsed (parentIdempotencyKey sha key a period)
  distinct : ∀ a ∈ path, ∀ b ∈ path,
    parentIdempotencyKey sha key a period = parentIdempotencyKey sha key b period → a = b

theorem Chargeable.tail {s : Store} {t : String} {path : List String}
    (h : Chargeable sha s period key (t :: path)) (ht : t ∉ path) :
    Chargeable sha (charge sha amount period key now t s) period key path where
  accounts a ha := h.accounts a (List.mem_cons_of_mem _ ha)
  free a ha := by
    rw [keyUsed_charge]
    rintro (hused | hsame)
    · exact h.free a (List.mem_cons_of_mem _ ha) hused
    · have hat := h.distinct a (List.mem_cons_of_mem _ ha) t (List.mem_cons_self ..) hsame
      rw [hat] at ha
      exact ht ha
  distinct a ha b hb :=
    h.distinct a (List.mem_cons_of_mem _ ha) b (List.mem_cons_of_mem _ hb)

/-- The accounts that a debit of the tenant goes to. -/
def OnChain (s : Store) (t a : String) : Prop := Above s.parent t a ∧ a ∈ s.accounts.keys

/-- Each account of the chain has room for the amount. -/
def WithinLimits (s : Store) (t period : String) (amount : Int) : Prop :=
  ∀ a account, Above s.parent t a → s.accounts.get? a = some account →
    s.spent a period + amount ≤ account.limitMicro

/-- No id is empty, and the parents are accounts. -/
structure Named (s : Store) : Prop where
  linked : WellLinked s
  nonempty : "" ∉ s.accounts.keys

/-- A debit that ends well has added the amount at the accounts of the chain, and
nowhere else. -/
structure ChargesChain (s s' : Store) (t period : String) (amount : Int) : Prop where
  accounts : s'.accounts = s.accounts
  charged : ∀ a, OnChain s t a → s'.spent a period = s.spent a period + amount
  others : ∀ a p, ¬(OnChain s t a ∧ p = period) → s'.spent a p = s.spent a p

/-- A debit ends well exactly when the chain is acyclic and has room. It then has charged
the chain, and otherwise it raises and leaves every table as it was. -/
structure Decides (before after : Database) (t period : String) (amount : Int)
    (outcome : Except BudgetError Rat) : Prop where
  decides : (∃ left, outcome = .ok left) ↔
    Acyclic before.committed.parent t ∧ WithinLimits before.committed t period amount
  charges : ∀ left, outcome = .ok left →
    ChargesChain before.committed after.committed t period amount
  undone : ∀ e, outcome = .error e → after.committed = before.committed

end

/-- The digests of the texts that the debit below derives keys from. -/
def digests : Dict String String where
  entries := [
    ("k|team|2024-05", "b1a7ad9402916a68183b6d59f3fc0176658dc02a279ed2f7c2947601d3bd02be"),
    ("k|org|2024-05", "ef76eda2d82784fd5a720869b0fc4063a49c9d0ba0a8928dbfbcae20fcb65748")]
  nodup := by decide

end orchestra.transactions
