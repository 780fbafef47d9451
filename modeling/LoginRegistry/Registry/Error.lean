import LoginRegistry.Payload
import LoginRegistry.Store.Error

/-! # Errors of the registry -/

namespace LoginRegistry

/-- What is wrong with a stored row. -/
inductive RowFault where
  /-- There is no id. -/
  | noUuid
  /-- The id has the wrong number of bytes. -/
  | uuidLength (count : Nat)
  /-- An account has no login. -/
  | noLogin (uuid : Uuid)
  /-- An account has no payload. -/
  | noPayload (uuid : Uuid)
  /-- The migration version of an account is not a 32-bit number. -/
  | badVersion (uuid : Uuid)
  deriving DecidableEq

/-- The wording of a fault; the letters are the attributes of the row. -/
def RowFault.message : RowFault → String
  | .noUuid => "missing U attribute"
  | .uuidLength count => s!"U holds {count} bytes, expected 16"
  | .noLogin uuid => s!"account {uuid.text} missing P attribute"
  | .noPayload uuid => s!"account {uuid.text} missing D attribute"
  | .badVersion uuid => s!"account {uuid.text} has invalid V"

/-- An error of a registry operation. -/
inductive RegistryError where
  /-- The id already has a different login. -/
  | identifierCollision (uuid : Uuid)
  /-- There is no row for the account. -/
  | accountNotFound (uuid : Uuid)
  /-- The login is bound to an account without a row. -/
  | loginOwnerMissing (login : String)
  /-- A row cannot be read. -/
  | corruptAccount (fault : RowFault)
  /-- The directory version is not a number. -/
  | corruptCounter (value : String)
  /-- A payload cannot be read. -/
  | payload (error : Payload.Error)
  /-- The store failed. -/
  | store (error : Store.Error)

namespace RegistryError

/-- The wording of an error. -/
def message : RegistryError → String
  | .identifierCollision uuid => s!"UUID {uuid.text} is already bound to a different login"
  | .accountNotFound uuid => s!"Account {uuid.text} not found"
  | .loginOwnerMissing login => s!"Login {login} is bound to an account that no longer exists"
  | .corruptAccount fault => s!"Corrupt account row: {fault.message}"
  | .corruptCounter value => s!"Corrupt directory version: {Text.quote value}"
  | .payload error => s!"Codec error: {error.message}"
  | .store error => s!"Backend error at <location>: {error.message}"

/-- The code of an error; that of the store if the store failed. -/
def code : RegistryError → ErrorCode
  | .identifierCollision _ => .identifierCollision
  | .accountNotFound _ => .accountNotFound
  | .loginOwnerMissing _ => .loginOwnerMissing
  | .corruptAccount _ => .corruptData
  | .corruptCounter _ => .corruptData
  | .payload _ => .serialization
  | .store error => error.code

end RegistryError

end LoginRegistry
