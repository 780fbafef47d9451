import LoginRegistry.ErrorCode
import LoginRegistry.Store.Item

/-! # Errors of the store -/

namespace LoginRegistry.Store

/-- What is wrong with a request. -/
inductive InvalidRequest where
  /-- The item or key lacks the table's partition attribute. -/
  | missingKey (partition table : String)
  /-- A bulk write holds no writes or too many. -/
  | bulkSize (limit count : Nat)
  /-- Any other defect, in the words of the store. -/
  | other (message : String)
  deriving DecidableEq, Repr

/-- The wording of a defect. -/
def InvalidRequest.message : InvalidRequest → String
  | .missingKey partition table => s!"missing partition key {partition} for table {table}"
  | .bulkSize limit count => s!"batch write must hold 1..={limit} requests, got {count}"
  | .other message => message

/-- An error of the store. -/
inductive Error where
  /-- The condition of a write did not hold.  `existing` is the stored item, if
      the write asked for it. -/
  | conditionFailed (table : String) (existing : Option Item)
  /-- There is no such table. -/
  | tableNotFound (table : String)
  /-- The request is malformed. -/
  | invalid (reason : InvalidRequest)
  /-- The store asks to slow down. -/
  | throttled (table : String)
  /-- The store cannot be reached or failed. -/
  | unavailable (message : String)
  deriving DecidableEq

namespace Error

/-- The wording of an error. -/
def message : Error → String
  | .conditionFailed table _ => s!"Conditional check failed on table {table}"
  | .tableNotFound table => s!"Table not found: {table}"
  | .invalid reason => s!"Validation error: {reason.message}"
  | .throttled table => s!"Request throttled on table {table}"
  | .unavailable message => s!"Backend unavailable: {message}"

/-- The code of an error. -/
def code : Error → ErrorCode
  | .conditionFailed .. => .conditionFailed
  | .tableNotFound .. => .tableNotFound
  | .invalid .. => .invalidRequest
  | .throttled .. => .throttled
  | .unavailable .. => .unavailable

/-- Whether a condition did not hold, as opposed to a failure. -/
def isConditionFailed : Error → Bool
  | .conditionFailed .. => true
  | _ => false

end Error

end LoginRegistry.Store
