import LoginRegistry.Registry.Error

/-! # Rows

    How accounts, logins and queue entries are laid out as items.

    * accounts: `U` the id, `P` the login, `D` the payload, `V` the migration
      version, `VD` the visibility; keyed on `U`
    * logins: `P` the login, `U` its owner; keyed on `P`
    * parameters: `PN` the name, `PV` the value; keyed on `PN`
    * queues: `U` the id, in the retry queue also `P` the login; keyed on `U`
-/

namespace LoginRegistry

open Store (AttributeValue Item)

namespace Row

/-! ### Attributes -/

/-- The attribute of an account id. -/
def uuidName : String := "U"

/-- The attribute of a login. -/
def loginName : String := "P"

/-- The attribute of a payload. -/
def dataName : String := "D"

/-- The attribute of a migration version. -/
def versionName : String := "V"

/-- The attribute of a visibility. -/
def visibilityName : String := "VD"

/-- The attribute of a parameter's name. -/
def parameterName : String := "PN"

/-- The attribute of a parameter's value. -/
def parameterValue : String := "PV"

/-! ### Keys -/

/-- An id as an attribute value. -/
def uuidValue (u : Uuid) : AttributeValue := .bytes u.bytes

/-- The key of a row that belongs to an account. -/
def uuidKey (u : Uuid) : Item := Item.key uuidName (uuidValue u)

/-- The key of a login row. -/
def loginKey (login : String) : Item := Item.key loginName (.string login)

/-- The key of the directory version. -/
def versionKey : Item := Item.key parameterName (.string "directory_version")

/-! ### Rows -/

/-- The row of a login and its owner. -/
def ofLogin (login : String) (owner : Uuid) : Item :=
  (loginKey login).insert uuidName (uuidValue owner)

/-- The retry entry of an account with its login. -/
def ofRetry (u : Uuid) (login : String) : Item :=
  (uuidKey u).insert loginName (.string login)

/-- The payload and version attributes of an account. -/
def changes (a : Account) : Item :=
  SortedMap.ofList [(dataName, .bytes (Payload.encode a.body)),
    (versionName, .number a.migrationVersion.toInt64)]

/-- The row of an account. -/
def ofAccount (a : Account) : Item :=
  SortedMap.ofList [(uuidName, uuidValue a.uuid), (loginName, .string a.login),
    (dataName, .bytes (Payload.encode a.body)),
    (versionName, .number a.migrationVersion.toInt64), (visibilityName, .string "default")]

/-- The id in a row. -/
def uuid (row : Item) : Except RegistryError Uuid :=
  match (row.get? uuidName).bind (·.bytes?) with
  | none => .error (.corruptAccount .noUuid)
  | some bytes =>
    match Uuid.ofBytes? bytes with
    | some u => .ok u
    | none => .error (.corruptAccount (.uuidLength bytes.length))

/-- The login in a row, if it is there as a string. -/
def login? (row : Item) : Option String := (row.get? loginName).bind (·.string?)

/-- The migration version in a row; a row without one has version 0. -/
def version? (row : Item) : Option Int32 :=
  match row.get? versionName with
  | none => some 0
  | some (.number n) =>
    if Int32.minValue.toInt ≤ n.toInt ∧ n.toInt ≤ Int32.maxValue.toInt then some n.toInt32
    else none
  | some _ => none

/-- The account in a row. -/
def account (row : Item) : Except RegistryError Account := do
  let uuid ← uuid row
  let some login := login? row | throw (.corruptAccount (.noLogin uuid))
  let some bytes := (row.get? dataName).bind (·.bytes?)
    | throw (.corruptAccount (.noPayload uuid))
  let some version := version? row | throw (.corruptAccount (.badVersion uuid))
  match Payload.decode bytes with
  | .ok body => return { uuid := uuid, login := login, migrationVersion := version, body := body }
  | .error e => throw (.payload e)

end Row

end LoginRegistry
