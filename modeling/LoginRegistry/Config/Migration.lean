import LoginRegistry.Config.Error

/-! # Settings of the migration -/

namespace LoginRegistry

/-- How wide the migration runs and how much it reads at once. -/
structure MigrationSettings where
  /-- Workers when a caller picks none. -/
  defaultWorkers : UInt64 := 1
  /-- Upper bound on workers. -/
  maxWorkers : UInt64 := 64
  /-- Retry entries driven in one pass. -/
  redriveBatchSize : UInt64 := 100
  /-- Tombstones read at once by a sweep. -/
  reconcilePageSize : UInt64 := 100
  deriving DecidableEq, Repr

namespace MigrationSettings

/-- Accepts positive numbers with the default width within the maximum. -/
def validate (s : MigrationSettings) : Except ConfigError Unit :=
  if s.defaultWorkers = 0 then .error (.notPositive "default_worker_count")
  else if s.maxWorkers = 0 then .error (.notPositive "max_worker_count")
  else if s.redriveBatchSize = 0 then .error (.notPositive "redrive_batch_size")
  else if s.reconcilePageSize = 0 then .error (.notPositive "reconcile_page_size")
  else if s.maxWorkers < s.defaultWorkers then
    .error (.workersExceedMaximum s.defaultWorkers s.maxWorkers)
  else .ok ()

/-- The number of workers for a request: at least one and at most the maximum. -/
def clampWorkers (s : MigrationSettings) (requested : UInt64) : UInt64 :=
  min (max requested 1) s.maxWorkers

/-- The settings that a caller picks; the others keep their default. -/
structure Choice where
  defaultWorkers : Option UInt64 := none
  maxWorkers : Option UInt64 := none
  redriveBatchSize : Option UInt64 := none
  reconcilePageSize : Option UInt64 := none

/-- The settings of a choice, if they are valid. -/
def build (c : Choice) : Except ConfigError MigrationSettings := do
  let d : MigrationSettings := {}
  let s : MigrationSettings :=
    ⟨c.defaultWorkers.getD d.defaultWorkers, c.maxWorkers.getD d.maxWorkers,
      c.redriveBatchSize.getD d.redriveBatchSize, c.reconcilePageSize.getD d.reconcilePageSize⟩
  s.validate
  return s

end MigrationSettings

end LoginRegistry
