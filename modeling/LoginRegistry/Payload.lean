import LoginRegistry.Account
import LoginRegistry.Json.Reader
import LoginRegistry.Json.Value

/-! # Account payloads

    The stored form of an account body: a JSON object whose first member is the
    schema version.  Reading looks at the schema first, so a payload of a newer
    schema is named as such whatever its other members are.
-/

namespace LoginRegistry.Payload

open Json (Value Reader Record Field)

/-! ### Writing -/

/-- The schema version that is written and the newest that is read. -/
def schemaVersion : UInt16 := 1

/-- A member that is left out without a value. -/
def optionalMember (name : String) (write : α → Value) : Option α → List (String × Value)
  | none => []
  | some a => [(name, write a)]

/-- The members of a device. -/
def deviceMembers (d : Device) : List (String × Value) :=
  ("id", .natural d.id.toNat)
    :: optionalMember "name" .string d.name
    ++ [("registrationId", .natural d.registrationId.toNat),
      ("created", .natural d.created.toNat),
      ("lastSeen", .natural d.lastSeen.toNat)]
    ++ optionalMember "userAgent" .string d.userAgent
    ++ [("enabled", .boolean d.enabled)]

/-- The members of an account body. -/
def bodyMembers (b : AccountBody) : List (String × Value) :=
  ("devices", .array (b.devices.map fun d => .object (deviceMembers d)))
    :: optionalMember "identityKey" .string b.identityKey
    ++ optionalMember "name" .string b.profileName
    ++ optionalMember "avatar" .string b.avatar
    ++ optionalMember "registrationLock" .string b.registrationLock
    ++ optionalMember "registrationLockSalt" .string b.registrationLockSalt
    ++ optionalMember "uak" (fun k => .array (k.map fun b => .natural b.toNat)) b.accessKey
    ++ [("uua", .boolean b.unrestrictedAccess), ("inCds", .boolean b.discoverable)]

/-- The members of a payload: the schema, then the body. -/
def members (b : AccountBody) : List (String × Value) :=
  ("schema", .natural schemaVersion.toNat) :: bodyMembers b

/-- The stored bytes of an account body. -/
def encode (b : AccountBody) : Bytes := (Value.object (members b)).render

/-! ### Reading -/

/-- The fields of a device.  Only the id has no default. -/
def deviceRecord : Record Device where
  name := "Device"
  start := { id := 0 }
  fields := [
    ⟨"id", (fun v d => { d with id := v }) <$> Reader.uint64, true⟩,
    ⟨"name", (fun v d => { d with name := v }) <$> Reader.optional Reader.string, false⟩,
    ⟨"registrationId", (fun v d => { d with registrationId := v }) <$> Reader.uint32, false⟩,
    ⟨"created", (fun v d => { d with created := v }) <$> Reader.uint64, false⟩,
    ⟨"lastSeen", (fun v d => { d with lastSeen := v }) <$> Reader.uint64, false⟩,
    ⟨"userAgent", (fun v d => { d with userAgent := v }) <$> Reader.optional Reader.string, false⟩,
    ⟨"enabled", (fun v d => { d with enabled := v }) <$> Reader.boolean, false⟩]

/-- The fields of an account body; all have defaults. -/
def bodyRecord : Record AccountBody where
  name := "AccountData"
  start := {}
  fields := [
    ⟨"devices",
      (fun v b => { b with devices := v }) <$> Reader.list (Reader.record deviceRecord), false⟩,
    ⟨"identityKey",
      (fun v b => { b with identityKey := v }) <$> Reader.optional Reader.string, false⟩,
    ⟨"name", (fun v b => { b with profileName := v }) <$> Reader.optional Reader.string, false⟩,
    ⟨"avatar", (fun v b => { b with avatar := v }) <$> Reader.optional Reader.string, false⟩,
    ⟨"registrationLock",
      (fun v b => { b with registrationLock := v }) <$> Reader.optional Reader.string, false⟩,
    ⟨"registrationLockSalt",
      (fun v b => { b with registrationLockSalt := v }) <$> Reader.optional Reader.string, false⟩,
    ⟨"uak",
      (fun v b => { b with accessKey := v }) <$> Reader.optional (Reader.list Reader.uint8),
      false⟩,
    ⟨"uua", (fun v b => { b with unrestrictedAccess := v }) <$> Reader.boolean, false⟩,
    ⟨"inCds", (fun v b => { b with discoverable := v }) <$> Reader.boolean, false⟩]

/-- The only field of the schema pass; a payload without it is of the first schema. -/
def schemaRecord : Record UInt16 where
  name := "EnvelopeHeader"
  start := 1
  fields := [⟨"schema", (fun v _ => v) <$> Reader.uint16, false⟩]

/-- Why a payload is refused. -/
inductive Error where
  /-- The text is not the JSON of a payload. -/
  | decode (cause : Json.Error)
  /-- The payload has a newer schema than is known. -/
  | unsupportedSchema (found : UInt16)

/-- The wording of a refusal. -/
def Error.message : Error → String
  | .decode cause => s!"Decoding failed: {cause.message}"
  | .unsupportedSchema found =>
    s!"Unsupported payload schema {found} (newest supported: {schemaVersion})"

/-- Reads an account body, whatever schema it claims. -/
def readBody (text : Bytes) : Except Json.Error AccountBody :=
  (Reader.record bodyRecord).parse text

/-- Reads a device. -/
def readDevice (text : Bytes) : Except Json.Error Device :=
  (Reader.record deviceRecord).parse text

/-- Reads stored bytes: the schema in a first pass over the whole text, then the body. -/
def decode (text : Bytes) : Except Error AccountBody :=
  match (Reader.record schemaRecord).parse text with
  | .error e => .error (.decode e)
  | .ok schema =>
    if schemaVersion < schema then .error (.unsupportedSchema schema)
    else
      match readBody text with
      | .error e => .error (.decode e)
      | .ok body => .ok body

end LoginRegistry.Payload
