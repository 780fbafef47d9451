import LoginRegistry.Config.Basic

/-! # Settings for tests

    Fixed configurations, so that tests run under the production table names and
    retry limits, with small pages.
-/

namespace LoginRegistry.Testbed

/-- Several workers, and pages so small that a sweep takes more than one. -/
def migrationSettings : MigrationSettings where
  defaultWorkers := 4
  maxWorkers := 16
  redriveBatchSize := 50
  reconcilePageSize := 10

/-- The usual configuration of a test. -/
def config : Config where
  migration := migrationSettings

/-- The configuration of a test of bulk writes. -/
def bulkConfig (choice : BulkSettings.Choice) : Config :=
  { config with bulk := BulkSettings.ofChoice choice }

end LoginRegistry.Testbed
