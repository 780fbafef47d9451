import LoginRegistry.Migration.Legacy
import LoginRegistry.Registry.Error

/-! # Errors of the migration -/

namespace LoginRegistry

/-- An error of a migration operation. -/
inductive MigrationError where
  /-- A write of an account failed otherwise than by its condition. -/
  | write (uuid : Uuid) (error : RegistryError)
  /-- A worker panicked. -/
  | worker
  /-- A sweep failed. -/
  | reconcile (error : RegistryError)
  /-- The retry queue could not be read or changed. -/
  | queue (error : RegistryError)
  /-- The legacy source could not load an account. -/
  | legacy (uuid : Uuid) (error : LegacyError)

namespace MigrationError

/-- The wording of an error. -/
def message : MigrationError → String
  | .write uuid error => s!"Migration write for {uuid.text} failed: {error.message}"
  | .worker => "Migration worker failed"
  | .reconcile error => s!"Tombstone reconciliation failed: {error.message}"
  | .queue error => s!"Retry queue access failed: {error.message}"
  | .legacy uuid error => s!"Legacy load of {uuid.text} failed: {error.message}"

/-- The code of an error; that of the registry where the queues failed. -/
def code : MigrationError → ErrorCode
  | .write .. => .migrationWriteFailed
  | .worker => .migrationWorkerFailed
  | .reconcile error => error.code
  | .queue error => error.code
  | .legacy .. => .legacySource

end MigrationError

end LoginRegistry
