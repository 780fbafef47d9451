import LoginRegistry.Text.Quoted
import LoginRegistry.Text.Shortest

/-! # Why a JSON text is refused

    A text can end too early, break the JSON grammar, or be well formed and not
    fit the value that is read from it.  A misfit names what was found and what
    was expected.
-/

namespace LoginRegistry.Json

/-- The kind of value that was found. -/
inductive Found where
  | null
  | boolean (value : Bool)
  | integer (value : Int)
  | float (value : Float)
  | string (value : String)
  | sequence
  | map

/-- What a reader expected. -/
inductive Expected where
  /-- A natural number below `2 ^ bits`. -/
  | unsigned (bits : Nat)
  /-- A count of things, below `2 ^ 64`. -/
  | size
  | boolean
  | string
  | sequence
  /-- The record of this name. -/
  | record (name : String)

/-- Why a reader stopped. -/
inductive Error where
  /-- The text ends inside a value. -/
  | endOfText
  /-- The text is not JSON. -/
  | malformed
  /-- A record lacks a required field. -/
  | missingField (name : String)
  /-- A record has a field twice. -/
  | duplicateField (name : String)
  /-- A value of another kind than expected. -/
  | wrongType (found : Found) (expected : Expected)
  /-- An integer outside the expected range. -/
  | outOfRange (found : Int) (expected : Expected)
  /-- A record given as an array that ends before a required field. -/
  | wrongLength (found : Nat) (record : String) (fields : Nat)

/-- The words for a found value. -/
def Found.text : Found → String
  | .null => "null"
  | .boolean value => s!"boolean `{value}`"
  | .integer value => s!"integer `{value}`"
  | .float value => s!"floating point `{Text.shortestFloat value}`"
  | .string value => s!"string {Text.quote value}"
  | .sequence => "sequence"
  | .map => "map"

/-- The words for an expectation. -/
def Expected.text : Expected → String
  | .unsigned bits => s!"u{bits}"
  | .size => "usize"
  | .boolean => "a boolean"
  | .string => "a string"
  | .sequence => "a sequence"
  | .record name => s!"struct {name}"

/-- The wording of a refusal. -/
def Error.message : Error → String
  | .endOfText => "eof"
  | .malformed => "syntax"
  | .missingField name => s!"missing field `{name}`"
  | .duplicateField name => s!"duplicate field `{name}`"
  | .wrongType found expected => s!"invalid type: {found.text}, expected {expected.text}"
  | .outOfRange found expected =>
    s!"invalid value: integer `{found}`, expected {expected.text}"
  | .wrongLength found record fields =>
    s!"invalid length {found}, expected struct {record} with {fields} elements"

end LoginRegistry.Json
