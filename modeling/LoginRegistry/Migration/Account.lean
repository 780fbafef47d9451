import LoginRegistry.Migration.Error
import LoginRegistry.Registry.Basic
import LoginRegistry.Workers

/-! # Migrating one account

    An account is migrated by two guarded writes, which stand for themselves: the row is
    written if it is new or of a lower version, the login is bound if it is free or the
    account's.  Each has a worker, and the two workers run side by side.  A refusal means that
    the write was made before or overtaken.  Any other failure puts the account into the retry
    queue before the result is known, so one failed write does not hide the other.
-/

namespace LoginRegistry.Registry

/-- Puts an account into the retry queue and reports it; a failure is passed over. -/
def queueRetry (r : Registry) (u : Uuid) (login : String) : Script Unit := do
  match ← (r.retries.putWithLogin u login).run with
  | .ok () => Script.report .retryQueued
  | .error _ => return

/-- A migration write in a worker, which queues the account if the write fails. -/
def guardedWrite (r : Registry) (a : Account) (write : Action Bool) :
    Script (Except RegistryError Bool) := do
  match ← write.run with
  | .ok applied => return .ok applied
  | .error e =>
    r.queueRetry a.uuid a.login
    return .error e

/-- The result of a worker.  If it panicked, the account is queued here. -/
def resolve (r : Registry) (a : Account) :
    Option (Except RegistryError Bool) → Script (Except MigrationError Bool)
  | some (.ok applied) => return .ok applied
  | some (.error e) => return .error (.write a.uuid e)
  | none => do
    let _ ← (r.queueRetry a.uuid a.login).isolate
    return .error .worker

/-- Both results as one: the account's failure comes before the login's. -/
def bothApplied : Except MigrationError Bool → Except MigrationError Bool →
    Except MigrationError Bool
  | .error e, _ => .error e
  | .ok _, .error e => .error e
  | .ok a, .ok b => .ok (a && b)

/-- The event of a migrated account. -/
def outcomeEvent : Except MigrationError Bool → Event
  | .ok true => .migrated
  | .ok false => .alreadyMigrated
  | .error _ => .migrationFailed

/-- Migrates an account; `true` if both writes were applied.  The second worker is that of
    the login. -/
def migrate (r : Registry) (a : Account) (turns : List Bool := []) :
    Script (Except MigrationError Bool) := do
  let (row, login) ← Script.both turns (r.guardedWrite a (r.accounts.migrate a)).isolate
    (r.guardedWrite a (r.logins.migrate a.login a.uuid)).isolate
  -- Both workers have ended by now; those that panicked are queued here.
  let row ← r.resolve a row
  let login ← r.resolve a login
  let outcome := bothApplied row login
  Script.report (outcomeEvent outcome)
  return outcome

/-- Without turns the login waits for the row. -/
theorem migrate_eq (r : Registry) (a : Account) : r.migrate a = do
    let row ← (r.guardedWrite a (r.accounts.migrate a)).isolate
    let login ← (r.guardedWrite a (r.logins.migrate a.login a.uuid)).isolate
    let row ← r.resolve a row
    let login ← r.resolve a login
    let outcome := bothApplied row login
    Script.report (outcomeEvent outcome)
    return outcome := by
  simp only [migrate, Script.both, bind_assoc, pure_bind]

end LoginRegistry.Registry
