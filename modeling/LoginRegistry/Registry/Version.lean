import LoginRegistry.Registry.Action
import LoginRegistry.Text.Decimal

/-! # The directory version

    A single row of the parameter table holds the version that the last change of
    membership stored, as a decimal numeral.
-/

namespace LoginRegistry

open Store (AttributeValue)

/-- The version counter in the table of a given name. -/
structure VersionCounter where
  table : String

namespace VersionCounter

/-- Stores a version. -/
def set (c : VersionCounter) (version : Int64) : Action Unit :=
  Action.ofStore <| Script.put {
    table := c.table
    item := Row.versionKey.insert Row.parameterValue (.string (Text.writeInt64 version)) }

/-- The version in a stored value: a numeral or a number. -/
def read : Option AttributeValue → Except RegistryError Int64
  | some (.string s) =>
    match Text.readInt64? s with
    | some n => .ok n
    | none => .error (.corruptCounter s)
  | some (.number n) => .ok n
  | some (.bytes b) => .error (.corruptCounter (AttributeValue.bytes b).text)
  | none => .error (.corruptCounter "")

/-- The stored version, if there is one. -/
def get (c : VersionCounter) : Action (Option Int64) := do
  match ← Action.ofStore (Script.get { table := c.table, key := Row.versionKey }) with
  | none => return none
  | some row => return some (← (read (row.get? Row.parameterValue) : Except _ _))

end VersionCounter

end LoginRegistry
