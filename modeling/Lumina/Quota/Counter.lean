import Lumina.Library.Program
import Mathlib.Algebra.Order.Ring.Int
import Mathlib.Algebra.BigOperators.Group.List.Basic

/-!
# QuotaService

The quota of one resource of one tenant.  A resource is metered by an aggregate of the database,
by a counter of the current period, or by a gauge; a counter and a gauge are one key of Redis.
`checkAndReserve` increments the key first and looks at the limit afterwards; a reservation is
settled by `commit`, which corrects it to the actual amount, or by `release`, which returns it.
`correct` puts the counter to a value from the database.

Amounts are counts.  The expiry of the key is left out: a key that neither expires nor is lost
is never without one.
-/

namespace Lumina.Quota

open Interleaving

/-- How a resource is metered: `_DB_BACKED`, `_PERIOD_MONTH` and `_PERIOD_DAY`, `_GAUGES`. -/
inductive Metering where
  | database
  | period
  | gauge
deriving DecidableEq, Repr

/-- A resource of a tenant, with what applies to it: the limit, the thresholds of the
notifications in percent, the smallest first, and the time to live of its key. -/
structure Resource where
  name : String
  metering : Metering
  limit : Option ℕ
  thresholds : List ℕ
  ttlSeconds : ℕ
deriving DecidableEq, Repr

structure QuotaReservation where
  amount : ℕ
  ttlSeconds : ℕ
deriving DecidableEq, Repr

/-- The operations of the service: the commands of Redis, the reads and writes of the database. -/
inductive Op where
  /-- The aggregate of a resource that the database meters. -/
  | dbUsed
  | incrby (n : ℤ)
  | decrby (n : ℤ)
  | expire (seconds : ℕ) (nx : Bool)
  | set (value : ℤ) (seconds : ℕ)
  /-- `SET NX` of the guard of a threshold. -/
  | setGuard (threshold : ℕ)
  | notify (used : ℤ) (limit : ℕ)
  /-- `llm_token_total` -/
  | tokenTotal
  /-- A row of the usage log, with its tokens. -/
  | record (tokens : ℕ)
  /-- The snapshot in the table of counters. -/
  | snapshot (used : ℕ)
deriving DecidableEq, Repr

abbrev Op.Reply : Op → Type
  | .dbUsed => ℕ
  | .incrby _ => ℤ
  | .decrby _ => ℤ
  | .expire _ _ => Unit
  | .set _ _ => Unit
  | .setGuard _ => Bool
  | .notify _ _ => Unit
  | .tokenTotal => ℕ
  | .record _ => Unit
  | .snapshot _ => Unit

/-- `QuotaExceededError`, with its details. -/
structure QuotaExceededError where
  resource : String
  limit : ℕ
  used : ℤ
  /-- Whether the details say when the period ends. -/
  resets : Bool
deriving DecidableEq, Repr

/-- The programs of the service. -/
abbrev Prog := Program Op.Reply QuotaExceededError

def perform (op : Op) : Prog op.Reply := Program.perform op

/-! ### The service -/

/-- The largest threshold that has been crossed. -/
def crossed (thresholds : List ℕ) (used : ℤ) (limit : ℕ) : ℕ :=
  (thresholds.filter fun t : ℕ => (t : ℤ) * limit ≤ used * 100).foldl max 0

/-- A notification at a crossed threshold, once for each of them; a gauge has none. -/
def maybeNotify (res : Resource) (used : ℤ) (limit : ℕ) : Prog Unit :=
  match res.thresholds with
  | [] => pure ()
  | first :: _ =>
      if res.metering = .gauge ∨ limit = 0 ∨ used * 100 < first * limit then pure ()
      else do
        if ← perform (.setGuard (crossed res.thresholds used limit)) then
          perform (.notify (min used limit) limit)
        else pure ()

def exceeded (res : Resource) (limit : ℕ) (used : ℤ) (resets : Bool) : QuotaExceededError where
  resource := res.name
  limit := limit
  used := used
  resets := resets

/-- A reservation if the quota suffices, nothing for a resource without a limit or without a
counter, and an error otherwise. -/
def checkAndReserve (res : Resource) (amount : ℕ) : Prog (Option QuotaReservation) :=
  match res.limit with
  | none => pure none
  | some limit =>
      if res.metering = .database then do
        let used ← perform .dbUsed
        maybeNotify res (used + amount) limit
        if limit < used + amount then .raise (exceeded res limit used false)
        else pure none
      else do
        let usedAfter ← perform (.incrby amount)
        perform (.expire res.ttlSeconds false)
        maybeNotify res usedAfter limit
        if limit < usedAfter then
          -- the increment is taken back
          let _ ← perform (.decrby amount)
          .raise (exceeded res limit (usedAfter - amount) (res.metering ≠ .gauge))
        else pure (some { amount := amount, ttlSeconds := res.ttlSeconds })

/-- `_keep_expiry`: an expiry for a key that has none. -/
def keepExpiry (r : QuotaReservation) : Prog Unit :=
  perform (.expire r.ttlSeconds true)

/-- A negative counter is put back to zero. -/
def clamp (value : ℤ) : Prog Unit :=
  if value < 0 then do
    let _ ← perform (.incrby (-value))
    pure ()
  else pure ()

/-- The reservation becomes the actual amount. -/
def commit (r : QuotaReservation) (actual : Option ℕ) : Prog Unit :=
  match actual with
  | none => pure ()
  | some actual =>
      if actual = r.amount then pure ()
      else do
        let adjusted ← perform (.incrby (actual - r.amount))
        clamp adjusted
        keepExpiry r

/-- The whole reservation is returned. -/
def release (r : QuotaReservation) : Prog Unit := do
  let remaining ← perform (.decrby r.amount)
  clamp remaining
  keepExpiry r

def correct (res : Resource) (value : ℤ) : Prog Unit :=
  perform (.set (max value 0) res.ttlSeconds)

/-- `QuotaReconciliationService.reconcile_tenant`, for the tokens of the month: the total of the
usage log is read, stored as a snapshot, and put into the counter. -/
def reconcileTenant (res : Resource) : Prog Unit := do
  let used ← perform .tokenTotal
  perform (.snapshot used)
  correct res used

/-- `TurnBudget.settle_tokens`: the actual usage, or the whole reservation back. -/
def settleTokens (r : QuotaReservation) (usage : Option ℕ) : Prog Unit :=
  match usage with
  | some actual => commit r (some actual)
  | none => release r

/-! ### The store -/

/-- What the operations act on: the counter of the resource, the guards of the notifications,
and the database. -/
structure Store where
  counter : ℤ := 0
  dbUsed : ℕ := 0
  guards : List ℕ := []
  notified : List (ℤ × ℕ) := []
  usageLogs : List ℕ := []
  snapshots : List ℕ := []
deriving DecidableEq, Repr

namespace Store

def exec : (op : Op) → Store → op.Reply × Store
  | .dbUsed, s => (s.dbUsed, s)
  | .incrby n, s => (s.counter + n, { s with counter := s.counter + n })
  | .decrby n, s => (s.counter - n, { s with counter := s.counter - n })
  | .expire _ _, s => ((), s)
  | .set value _, s => ((), { s with counter := value })
  | .setGuard threshold, s =>
      if threshold ∈ s.guards then (false, s)
      else (true, { s with guards := threshold :: s.guards })
  | .notify used limit, s => ((), { s with notified := (used, limit) :: s.notified })
  | .tokenTotal, s => (s.usageLogs.sum, s)
  | .record tokens, s => ((), { s with usageLogs := tokens :: s.usageLogs })
  | .snapshot used, s => ((), { s with snapshots := used :: s.snapshots })

end Store

/-- What an operation adds to the counter, if it does not overwrite it. -/
def Op.delta : Op → ℤ
  | .incrby n => n
  | .decrby n => -n
  | _ => 0

/-- The operations of the reservations: they do not overwrite the counter, and they write no
row of the usage log. -/
def Op.isRelative : Op → Bool
  | .set _ _ | .record _ => false
  | _ => true

/-- A relative operation changes the counter by its own amount. -/
theorem Store.exec_counter {op : Op} (h : op.isRelative) (s : Store) :
  (s.exec op).2.counter = s.counter + op.delta ∧ (s.exec op).2.usageLogs = s.usageLogs
  := by
  cases op with
  | incrby n => exact ⟨rfl, rfl⟩
  | decrby n => exact ⟨sub_eq_add_neg _ _, rfl⟩
  | setGuard threshold =>
    simp only [exec]
    split
    · exact ⟨(add_zero _).symm, rfl⟩
    · exact ⟨(add_zero _).symm, rfl⟩
  | set value seconds => cases h
  | record tokens => cases h
  | dbUsed => exact ⟨(add_zero _).symm, rfl⟩
  | expire seconds nx => exact ⟨(add_zero _).symm, rfl⟩
  | notify used limit => exact ⟨(add_zero _).symm, rfl⟩
  | tokenTotal => exact ⟨(add_zero _).symm, rfl⟩
  | snapshot used => exact ⟨(add_zero _).symm, rfl⟩

end Lumina.Quota
