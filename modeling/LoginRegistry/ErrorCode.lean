/-! # Error codes

    Every error has a numeric code for programs to act on.  The ranges follow
    the layers: 1000 the store, 3000 and 3100 the registry, 4000 the migration,
    5000 the configuration.
-/

namespace LoginRegistry

/-- The codes. -/
inductive ErrorCode where
  /-- A conditional write's condition did not hold. -/
  | conditionFailed
  /-- The store does not know the table. -/
  | tableNotFound
  /-- The request was malformed. -/
  | invalidRequest
  /-- The store throttled the request. -/
  | throttled
  /-- The store could not be reached or failed. -/
  | unavailable
  /-- The id already has a different login. -/
  | identifierCollision
  /-- There is no row for the account. -/
  | accountNotFound
  /-- A login is bound to an account without a row. -/
  | loginOwnerMissing
  /-- A stored row lacks attributes or holds invalid values. -/
  | corruptData
  /-- A payload could not be read or written. -/
  | serialization
  /-- A migration write failed and was queued. -/
  | migrationWriteFailed
  /-- A migration worker stopped abnormally. -/
  | migrationWorkerFailed
  /-- The legacy source failed. -/
  | legacySource
  /-- A configuration value is out of range. -/
  | configuration
  deriving DecidableEq, Repr

namespace ErrorCode

/-- Every code, in increasing order. -/
def all : List ErrorCode :=
  [conditionFailed, tableNotFound, invalidRequest, throttled, unavailable, identifierCollision,
    accountNotFound, loginOwnerMissing, corruptData, serialization, migrationWriteFailed,
    migrationWorkerFailed, legacySource, configuration]

/-- The number of a code. -/
def number : ErrorCode → Nat
  | conditionFailed => 1000
  | tableNotFound => 1001
  | invalidRequest => 1002
  | throttled => 1003
  | unavailable => 1004
  | identifierCollision => 3000
  | accountNotFound => 3001
  | loginOwnerMissing => 3002
  | corruptData => 3100
  | serialization => 3101
  | migrationWriteFailed => 4000
  | migrationWorkerFailed => 4001
  | legacySource => 4002
  | configuration => 5000

/-- The code with a given number. -/
def ofNumber? (n : Nat) : Option ErrorCode := all.find? (·.number == n)

/-- Every code is found under its number. -/
theorem ofNumber?_number (c : ErrorCode) : ofNumber? c.number = some c := by
  cases c <;> rfl

/-- The published name of a code. -/
def name : ErrorCode → String
  | conditionFailed => "BackendConditionFailed"
  | tableNotFound => "BackendTableNotFound"
  | invalidRequest => "BackendValidation"
  | throttled => "BackendThrottled"
  | unavailable => "BackendUnavailable"
  | identifierCollision => "DirectoryIdentifierCollision"
  | accountNotFound => "DirectoryAccountNotFound"
  | loginOwnerMissing => "DirectoryLoginOwnerMissing"
  | corruptData => "DirectoryCorruptData"
  | serialization => "DirectorySerialization"
  | migrationWriteFailed => "MigrationWriteFailed"
  | migrationWorkerFailed => "MigrationWorkerFailed"
  | legacySource => "MigrationLegacySource"
  | configuration => "ConfigValidation"

/-- The text of a code: its number. -/
def display (c : ErrorCode) : String := toString c.number

/-- Whether the same call may succeed later. -/
def retryable : ErrorCode → Bool
  | throttled | unavailable | migrationWriteFailed | migrationWorkerFailed | legacySource => true
  | _ => false

/-- What to do about an error of this code. -/
def action : ErrorCode → String
  | conditionFailed => "Re-read the current item and decide whether the write is still needed."
  | tableNotFound => "Create the table or fix the configured table name."
  | invalidRequest => "Fix the request shape. Batches hold at most 25 writes."
  | throttled => "Retry with exponential backoff."
  | unavailable => "Retry with backoff and check backend health."
  | identifierCollision => "The UUID already belongs to another login. Allocate a fresh UUID."
  | accountNotFound => "Create the account before updating it."
  | loginOwnerMissing => "Run tombstone reconciliation, then retry the create."
  | corruptData => "Stored data is corrupt. Inspect the row and restore it from the legacy store."
  | serialization => "Payload codec failure. Check the payload schema version of the stored row."
  | migrationWriteFailed => "The account was queued for retry. Re-drive the retry queue later."
  | migrationWorkerFailed => "Rerun the batch. Migration is idempotent."
  | legacySource => "Check the legacy store and re-drive the retry queue."
  | configuration => "Fix the configuration value and restart."

end ErrorCode

end LoginRegistry
