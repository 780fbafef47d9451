import LoginRegistry.SortedMap

/-! # Metrics

    Operations report events.  A collection of metrics holds for each counter the
    sum of what was added to it, and for the latency histogram the number of
    samples; a counter is there from its first event on, even one that adds 0.
-/

namespace LoginRegistry

/-- The operations whose latency is sampled. -/
inductive TimedOperation where
  | create
  | update
  | getByLogin
  | getByUuid
  | delete
  deriving DecidableEq, Repr

/-- The label of a sampled operation. -/
def TimedOperation.label : TimedOperation → String
  | .create => "create"
  | .update => "update"
  | .getByLogin => "get_by_login"
  | .getByUuid => "get_by_uuid"
  | .delete => "delete"

/-- What an operation reports. -/
inductive Event where
  /-- An operation of the registry ended. -/
  | timed (operation : TimedOperation)
  /-- A bulk write was sent, for the first time or again. -/
  | bulkRequest (first : Bool)
  /-- Writes were given up after the last retry. -/
  | bulkLeftOver (count : Nat)
  /-- Both writes of a migration were applied. -/
  | migrated
  /-- A migration found at least one write already applied. -/
  | alreadyMigrated
  /-- A migration failed. -/
  | migrationFailed
  /-- An account was put into the retry queue. -/
  | retryQueued
  /-- A sweep processed tombstones. -/
  | swept (count : Nat)
  deriving DecidableEq, Repr

/-- A counter name with one label. -/
def labelled (name label value : String) : String :=
  name ++ "\x7b" ++ label ++ "=" ++ value ++ "\x7d"

/-- The counter that an event adds to. -/
def Event.counter : Event → String
  | .timed operation =>
    labelled "account_directory_store_operation_latency_seconds" "operation" operation.label
  | .bulkRequest first =>
    labelled "account_directory_batch_write_requests_total" "first_attempt" (toString first)
  | .bulkLeftOver _ => "account_directory_batch_write_unprocessed_total"
  | .migrated => "account_directory_migration_migrated_total"
  | .alreadyMigrated => "account_directory_migration_already_migrated_total"
  | .migrationFailed => "account_directory_migration_errors_total"
  | .retryQueued => "account_directory_migration_retry_enqueued_total"
  | .swept _ => "account_directory_reconcile_tombstones_total"

/-- How much an event adds. -/
def Event.amount : Event → Nat
  | .bulkLeftOver count => count
  | .swept count => count
  | _ => 1

/-- Sums by counter. -/
abbrev Metrics := SortedMap String Nat

/-- Adds an event. -/
def Metrics.record (m : Metrics) (e : Event) : Metrics :=
  m.insert e.counter ((m.get? e.counter).getD 0 + e.amount)

end LoginRegistry
