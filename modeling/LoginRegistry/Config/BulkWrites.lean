import LoginRegistry.Config.Error

/-! # Settings of bulk writes -/

namespace LoginRegistry

/-- How bulk writes are cut and repeated. -/
structure BulkSettings where
  /-- Requests allowed for leftover writes, after the first request. -/
  maxAttempts : UInt32 := 25
  /-- Writes per request. -/
  maxBatchSize : UInt64 := 25
  deriving DecidableEq, Repr

namespace BulkSettings

/-- Accepts at least one retry and a batch size that the store takes. -/
def validate (s : BulkSettings) : Except ConfigError Unit :=
  if s.maxAttempts = 0 then .error .noAttempts
  else if s.maxBatchSize = 0 ∨ maxBulkWrites < s.maxBatchSize.toNat then
    .error (.batchSize s.maxBatchSize)
  else .ok ()

/-- The settings that a caller picks; the others keep their default. -/
structure Choice where
  maxAttempts : Option UInt32 := none
  maxBatchSize : Option UInt64 := none

/-- The settings of a choice, not yet validated. -/
def ofChoice (c : Choice) : BulkSettings :=
  let d : BulkSettings := {}
  ⟨c.maxAttempts.getD d.maxAttempts, c.maxBatchSize.getD d.maxBatchSize⟩

/-- The settings of a choice, if they are valid. -/
def build (c : Choice) : Except ConfigError BulkSettings := do
  (ofChoice c).validate
  return ofChoice c

end BulkSettings

end LoginRegistry
