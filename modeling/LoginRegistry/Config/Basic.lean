import LoginRegistry.Config.BulkWrites
import LoginRegistry.Config.Migration
import LoginRegistry.Config.Tables
import LoginRegistry.Json.Reader
import LoginRegistry.Json.Value

/-! # Configuration

    The configuration has a section for the table names, one for bulk writes and
    one for the migration.  As JSON each section and each field of a section may
    be left out for its default, and reading does not validate.
-/

namespace LoginRegistry

open Json (Value Reader Record)

/-- The configuration of a registry. -/
structure Config where
  /-- The table names. -/
  tables : TableNames := {}
  /-- Bulk writes. -/
  bulk : BulkSettings := {}
  /-- The migration. -/
  migration : MigrationSettings := {}
  deriving DecidableEq, Repr

namespace Config

/-- Checks the sections in order. -/
def validate (c : Config) : Except ConfigError Unit := do
  c.tables.validate
  c.bulk.validate
  c.migration.validate

/-! ### Writing -/

/-- The members of the table section. -/
def tableMembers (t : TableNames) : List (String × Value) :=
  [("accounts", .string t.accounts), ("logins", .string t.logins), ("misc", .string t.misc),
    ("tombstones", .string t.tombstones), ("retries", .string t.retries)]

/-- The members of the bulk section. -/
def bulkMembers (s : BulkSettings) : List (String × Value) :=
  [("max_attempts", .natural s.maxAttempts.toNat),
    ("max_batch_size", .natural s.maxBatchSize.toNat)]

/-- The members of the migration section. -/
def migrationMembers (s : MigrationSettings) : List (String × Value) :=
  [("default_worker_count", .natural s.defaultWorkers.toNat),
    ("max_worker_count", .natural s.maxWorkers.toNat),
    ("redrive_batch_size", .natural s.redriveBatchSize.toNat),
    ("reconcile_page_size", .natural s.reconcilePageSize.toNat)]

/-- The sections of a configuration. -/
def members (c : Config) : List (String × Value) :=
  [("tables", .object (tableMembers c.tables)), ("batch_write", .object (bulkMembers c.bulk)),
    ("migration", .object (migrationMembers c.migration))]

/-- The compact text of a configuration. -/
def encode (c : Config) : Bytes := (Value.object c.members).render

/-! ### Reading -/

/-- The fields of the table section. -/
def tableRecord : Record TableNames where
  name := "TableNames"
  start := {}
  fields := [
    ⟨"accounts", (fun v t => { t with accounts := v }) <$> Reader.string, false⟩,
    ⟨"logins", (fun v t => { t with logins := v }) <$> Reader.string, false⟩,
    ⟨"misc", (fun v t => { t with misc := v }) <$> Reader.string, false⟩,
    ⟨"tombstones", (fun v t => { t with tombstones := v }) <$> Reader.string, false⟩,
    ⟨"retries", (fun v t => { t with retries := v }) <$> Reader.string, false⟩]

/-- The fields of the bulk section. -/
def bulkRecord : Record BulkSettings where
  name := "BatchWriteConfig"
  start := {}
  fields := [
    ⟨"max_attempts", (fun v s => { s with maxAttempts := v }) <$> Reader.uint32, false⟩,
    ⟨"max_batch_size", (fun v s => { s with maxBatchSize := v }) <$> Reader.size, false⟩]

/-- The fields of the migration section. -/
def migrationRecord : Record MigrationSettings where
  name := "MigrationConfig"
  start := {}
  fields := [
    ⟨"default_worker_count", (fun v s => { s with defaultWorkers := v }) <$> Reader.size, false⟩,
    ⟨"max_worker_count", (fun v s => { s with maxWorkers := v }) <$> Reader.size, false⟩,
    ⟨"redrive_batch_size", (fun v s => { s with redriveBatchSize := v }) <$> Reader.size, false⟩,
    ⟨"reconcile_page_size",
      (fun v s => { s with reconcilePageSize := v }) <$> Reader.size, false⟩]

/-- The sections. -/
def configRecord : Record Config where
  name := "DirectoryConfig"
  start := {}
  fields := [
    ⟨"tables", (fun v c => { c with tables := v }) <$> Reader.record tableRecord, false⟩,
    ⟨"batch_write", (fun v c => { c with bulk := v }) <$> Reader.record bulkRecord, false⟩,
    ⟨"migration", (fun v c => { c with migration := v }) <$> Reader.record migrationRecord, false⟩]

/-- Reads a configuration. -/
def decode (text : Bytes) : Except Json.Error Config := (Reader.record configRecord).parse text

end Config

end LoginRegistry
