import LoginRegistry.Migration.Account
import LoginRegistry.Migration.Sweep

/-! # Migrating a batch

    A batch migrates each account once, several of them at a time, and then sweeps
    once, because deletes may have raced with it.  A failed account is counted and
    does not stop the batch.
-/

namespace LoginRegistry

/-- What became of a batch. -/
structure BatchReport where
  /-- Accounts with both writes applied. -/
  migrated : Nat := 0
  /-- Accounts with a write that was applied before. -/
  alreadyMigrated : Nat := 0
  /-- Accounts that failed. -/
  failed : Nat := 0
  /-- Tombstones that the closing sweep processed. -/
  swept : Nat := 0
  deriving DecidableEq, Repr

namespace BatchReport

/-- Counts one account. -/
def count (report : BatchReport) : Except MigrationError Bool → BatchReport
  | .ok true => { report with migrated := report.migrated + 1 }
  | .ok false => { report with alreadyMigrated := report.alreadyMigrated + 1 }
  | .error _ => { report with failed := report.failed + 1 }

end BatchReport

namespace Registry

/-- Migrates accounts, as many at a time as there may be workers. -/
def migrateAll (r : Registry) (accounts : List Account) (workers : UInt64) (turns : Turns := {}) :
    Script (List (Except MigrationError Bool)) :=
  Script.pool (r.config.migration.clampWorkers workers).toNat turns.accounts
    (accounts.mapIdx fun i a => r.migrate a (turns.workers.getD i []))

/-- Migrates a batch and sweeps. -/
def migrateBatch (r : Registry) (accounts : List Account) (workers : UInt64)
    (turns : Turns := {}) : Script (Except MigrationError BatchReport) := do
  let outcomes ← r.migrateAll accounts workers turns
  let report := outcomes.foldl BatchReport.count {}
  match ← r.reconcile with
  | .ok swept => return .ok { report with swept := swept }
  | .error e => return .error e

end Registry

end LoginRegistry
