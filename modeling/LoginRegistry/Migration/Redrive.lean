import LoginRegistry.Migration.Account
import LoginRegistry.Migration.Legacy

/-! # Driving failed migrations again

    A re-drive takes accounts from the retry queue and loads them anew from the
    legacy source, several of them at a time.  An entry is removed once its account is
    migrated, or deleted because the source does not have it any more.  All other entries
    stay.
-/

namespace LoginRegistry

/-- What became of a queue entry. -/
inductive RedriveOutcome where
  /-- The account is migrated and the entry removed. -/
  | migrated
  /-- The account is gone and the entry removed. -/
  | dropped
  /-- The entry stays. -/
  | kept (error : MigrationError)

/-- What became of the entries of a pass. -/
structure RedriveReport where
  /-- Entries whose account is migrated. -/
  migrated : Nat := 0
  /-- Entries whose account is gone. -/
  dropped : Nat := 0
  /-- Why the other entries stay, in the order of the queue. -/
  failures : List MigrationError := []

namespace RedriveReport

/-- The number of entries that stay. -/
def failed (report : RedriveReport) : Nat := report.failures.length

/-- Counts one entry. -/
def count (report : RedriveReport) : RedriveOutcome → RedriveReport
  | .migrated => { report with migrated := report.migrated + 1 }
  | .dropped => { report with dropped := report.dropped + 1 }
  | .kept e => { report with failures := report.failures ++ [e] }

end RedriveReport

namespace Registry

/-- Deletes in a worker an account that the legacy source does not have. -/
def dropAccount (r : Registry) (u : Uuid) : Script RedriveOutcome := do
  match ← (r.deleteWith u .reconcile).run.isolate with
  | some (.ok ()) => return .dropped
  | some (.error e) => return .kept (.write u e)
  | none => return .kept .worker

/-- Drives one account as loaded from the source. -/
def driveLoaded (r : Registry) (u : Uuid) (turns : List Bool) : Loaded → Script RedriveOutcome
  | .failed e => return .kept (.legacy u e)
  | .panicked => return .kept .worker
  | .account none => r.dropAccount u
  | .account (some a) => do
    match ← r.migrate a turns with
    | .ok _ => return .migrated
    | .error e => return .kept e

/-- Removes in a worker the entry of an account that needs no more driving. -/
def settle (r : Registry) (u : Uuid) : RedriveOutcome → Script RedriveOutcome
  | .kept e => return .kept e
  | outcome => do
    match ← (r.retries.remove u).run.isolate with
    | some (.ok ()) => return outcome
    | some (.error e) => return .kept (.queue e)
    | none => return .kept .worker

/-- Drives an entry. -/
def drive (r : Registry) (source : LegacySource) (u : Uuid) (turns : List Bool) :
    Script RedriveOutcome := do
  let outcome ← r.driveLoaded u turns (source.loadInWorker u)
  r.settle u outcome

/-- Drives entries, as many at a time as there are workers by default. -/
def driveAll (r : Registry) (source : LegacySource) (entries : List Uuid) (turns : Turns := {}) :
    Script (List RedriveOutcome) :=
  let settings := r.config.migration
  Script.pool (settings.clampWorkers settings.defaultWorkers).toNat turns.accounts
    (entries.mapIdx fun i u => r.drive source u (turns.workers.getD i []))

/-- Drives the first entries of the retry queue again, as many as asked for or as
    configured. -/
def redrive (r : Registry) (source : LegacySource) (max : Option Nat) (turns : Turns := {}) :
    Script (Except MigrationError RedriveReport) := do
  let max := max.getD r.config.migration.redriveBatchSize.toNat
  match ← (r.retries.list max).run.isolate with
  | none => return .error .worker
  | some (.error e) => return .error (.queue e)
  | some (.ok entries) =>
    let outcomes ← r.driveAll source entries turns
    return .ok (outcomes.foldl RedriveReport.count {})

end Registry

end LoginRegistry
