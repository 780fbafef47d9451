import LoginRegistry.ErrorCode
import LoginRegistry.Text.Quoted

/-! # Why a configuration is refused -/

namespace LoginRegistry

/-- A value out of range, or two values that do not fit each other. -/
inductive ConfigError where
  /-- A table has no name. -/
  | emptyTableName (field : String)
  /-- Two tables have one name. -/
  | sharedTableName (field other name : String)
  /-- No bulk write may be sent. -/
  | noAttempts
  /-- The store does not take bulk writes of this size. -/
  | batchSize (size : UInt64)
  /-- A number has to be positive. -/
  | notPositive (field : String)
  /-- The default number of workers is above the maximum. -/
  | workersExceedMaximum (default maximum : UInt64)
  deriving DecidableEq, Repr

/-- The largest bulk write that the store takes. -/
def maxBulkWrites : Nat := 25

/-- What is wrong, in words. -/
def ConfigError.reason : ConfigError → String
  | .emptyTableName field => s!"table name `{field}` must not be empty"
  | .sharedTableName field other name =>
    s!"tables `{field}` and `{other}` share the name {Text.quote name}"
  | .noAttempts => "max_attempts must be >= 1"
  | .batchSize size => s!"max_batch_size must be 1-{maxBulkWrites}, got {size}"
  | .notPositive field => s!"{field} must be > 0"
  | .workersExceedMaximum default maximum =>
    s!"default_worker_count ({default}) must be <= max_worker_count ({maximum})"

/-- The wording of a refusal. -/
def ConfigError.message (e : ConfigError) : String := s!"invalid config: {e.reason}"

/-- The code of every refusal. -/
def ConfigError.code (_ : ConfigError) : ErrorCode := .configuration

end LoginRegistry
