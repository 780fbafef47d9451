import LoginRegistry.Uuid

/-! # Accounts and devices

    An account has an id that never changes, a login that is unique in the
    registry, a migration version and a body.  The body lists the account's
    devices in the order in which they were last added, at most one per device id
    as long as they come from `addDevice`.
-/

namespace LoginRegistry

/-- A device registered to an account. -/
structure Device where
  /-- Number of the device within the account. -/
  id : UInt64
  /-- Encrypted device name. -/
  name : Option String := none
  /-- Registration id of the client. -/
  registrationId : UInt32 := 0
  /-- Creation time in milliseconds. -/
  created : UInt64 := 0
  /-- Last activity in milliseconds. -/
  lastSeen : UInt64 := 0
  /-- User agent of the client. -/
  userAgent : Option String := none
  /-- Whether the device may send and receive. -/
  enabled : Bool := false
  deriving DecidableEq, Repr

/-- A fresh enabled device. -/
def Device.new (id : UInt64) : Device := { id := id, enabled := true }

/-- The body of an account, as stored in its payload. -/
structure AccountBody where
  /-- Registered devices. -/
  devices : List Device := []
  /-- Public identity key. -/
  identityKey : Option String := none
  /-- Encrypted profile name. -/
  profileName : Option String := none
  /-- Reference to the profile picture. -/
  avatar : Option String := none
  /-- Hash of the registration lock. -/
  registrationLock : Option String := none
  /-- Salt of the registration lock hash. -/
  registrationLockSalt : Option String := none
  /-- Access key for unidentified delivery. -/
  accessKey : Option Bytes := none
  /-- Whether anyone may deliver unidentified. -/
  unrestrictedAccess : Bool := false
  /-- Whether the login can be discovered. -/
  discoverable : Bool := true
  deriving DecidableEq, Repr

/-- An account. -/
structure Account where
  /-- The id; it never changes once stored. -/
  uuid : Uuid
  /-- The unique login. -/
  login : String
  /-- The version that migration compares. -/
  migrationVersion : Int32 := 0
  /-- The body. -/
  body : AccountBody := {}
  deriving DecidableEq

namespace Account

/-- The id of the device an account is registered with. -/
def masterDeviceId : UInt64 := 1

/-! ### Looking at devices -/

/-- The device with the given id. -/
def device? (a : Account) (id : UInt64) : Option Device := a.body.devices.find? (·.id == id)

/-- The device the account was registered with. -/
def masterDevice? (a : Account) : Option Device := a.device? masterDeviceId

/-- An account is enabled while its master device is. -/
def isEnabled (a : Account) : Bool := a.masterDevice?.any (·.enabled)

/-- The number of enabled devices. -/
def enabledDeviceCount (a : Account) : Nat := (a.body.devices.filter (·.enabled)).length

/-- The highest device id, and at least that of the master device. -/
def highestDeviceId (a : Account) : UInt64 :=
  a.body.devices.foldl (fun highest d => max highest d.id) masterDeviceId

/-- The id for the next device: that of the first disabled device, otherwise one past the
    highest; `none` when there is no such id, which is a panic. -/
def nextDeviceId? (a : Account) : Option UInt64 :=
  match a.body.devices.find? (!·.enabled) with
  | some d => some d.id
  | none =>
    if a.highestDeviceId.toNat + 1 < UInt64.size then some (a.highestDeviceId + 1) else none

/-- The latest activity of any device, 0 without devices. -/
def lastSeen (a : Account) : UInt64 :=
  a.body.devices.foldl (fun latest d => max latest d.lastSeen) 0

/-! ### Changing devices -/

/-- The account with other devices. -/
def withDevices (a : Account) (devices : List Device) : Account :=
  { a with body := { a.body with devices := devices } }

/-- Removes the devices with the given id; tells whether there was one. -/
def removeDevice (a : Account) (id : UInt64) : Bool × Account :=
  (a.body.devices.any (·.id == id), a.withDevices (a.body.devices.filter (·.id != id)))

/-- Adds a device at the end, in place of any device with its id. -/
def addDevice (a : Account) (d : Device) : Account :=
  a.withDevices (a.body.devices.filter (·.id != d.id) ++ [d])

end Account

end LoginRegistry
