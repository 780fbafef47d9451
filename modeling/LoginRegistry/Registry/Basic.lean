import LoginRegistry.Config.Basic
import LoginRegistry.Registry.Accounts
import LoginRegistry.Registry.Logins
import LoginRegistry.Registry.Queue
import LoginRegistry.Registry.Version

/-! # The registry

    The registry keeps accounts and logins in two tables that are written one
    after the other and never together.

    * create: the account row (if new or of the same login), the login (if free
      or the account's), the directory version
    * delete: a tombstone, the login (if the account's), the account row, the
      directory version

    Every way to recover puts up with one of the writes alone.  A create that
    loses its login to another account updates that account instead, and the
    tombstone, which is written first, lets a sweep finish a delete.
-/

namespace LoginRegistry

/-- A registry over the tables of a configuration. -/
structure Registry where
  config : Config

/-- How an account is deleted. -/
structure DeleteOptions where
  /-- Whether to leave a tombstone first. -/
  tombstone : Bool
  /-- The directory version to store in the end. -/
  version : Option Int64
  deriving DecidableEq, Repr

namespace DeleteOptions

/-- A delete on request: with a tombstone and a version. -/
def steady (version : Int64) : DeleteOptions := ⟨true, some version⟩

/-- A delete that finishes another: without both. -/
def reconcile : DeleteOptions := ⟨false, none⟩

end DeleteOptions

/-- How a create ended. -/
inductive Creation where
  /-- The account is new or was there already. -/
  | created
  /-- The login belongs to another account, which was updated instead. -/
  | updatedOwner (owner : Uuid)
  deriving DecidableEq

namespace Creation

/-- Whether the account itself was stored. -/
def isCreated : Creation → Bool
  | .created => true
  | .updatedOwner _ => false

/-- The id under which the account is stored in the end. -/
def uuid (c : Creation) (requested : Uuid) : Uuid :=
  match c with
  | .created => requested
  | .updatedOwner owner => owner

end Creation

namespace Registry

/-- The registry of a configuration, if that is valid. -/
def ofConfig (c : Config) : Except ConfigError Registry := do
  c.validate
  return ⟨c⟩

/-! ### Tables -/

/-- The account table. -/
def accounts (r : Registry) : AccountTable := ⟨r.config.tables.accounts⟩

/-- The login index. -/
def logins (r : Registry) : LoginIndex := ⟨r.config.tables.logins⟩

/-- The version counter. -/
def counter (r : Registry) : VersionCounter := ⟨r.config.tables.misc⟩

/-- The tombstones of deleted accounts. -/
def tombstones (r : Registry) : Queue := ⟨r.config.tables.tombstones, r.config.bulk⟩

/-- The accounts to be migrated again. -/
def retries (r : Registry) : Queue := ⟨r.config.tables.retries, r.config.bulk⟩

/-- The name and partition attribute of every table. -/
def layout (t : TableNames) : List (String × String) :=
  [(t.accounts, Row.uuidName), (t.logins, Row.loginName), (t.misc, Row.parameterName),
    (t.tombstones, Row.uuidName), (t.retries, Row.uuidName)]

/-! ### Operations -/

/-- Updates the owner of a login with the body of an account that lost it. -/
def updateOwner (r : Registry) (a : Account) (owner : Uuid) : Action Unit :=
  tryCatch (r.accounts.update { a with uuid := owner }) fun
    | .accountNotFound _ => throw (.loginOwnerMissing a.login)
    | e => throw e

/-- Creates an account, or updates the account that has its login already. -/
def create (r : Registry) (a : Account) (version : Int64) : Action Creation :=
  Action.timed .create do
    r.accounts.create a
    match ← r.logins.claim a.login a.uuid with
    | .claimed =>
      r.counter.set version
      return .created
    | .owned owner =>
      -- The row written above has no login of its own, so it must not stay.
      let _ ← r.accounts.deleteIfLogin a.uuid a.login
      r.updateOwner a owner
      return .updatedOwner owner

/-- Creates the account of a caller: what came of it (`none` for a panic), and the caller's
    account in the end. -/
def createFor (r : Registry) (a : Account) (version : Int64) :
    Script (Option (Except RegistryError Creation) × Account) := do
  let result ← (r.create a version).run.isolate
  match result with
  -- The account takes over the id of an owner only now that all writes are made.
  | some (.ok outcome) => return (result, { a with uuid := outcome.uuid a.uuid })
  | some (.error _) | none => return (result, a)

/-- Replaces payload and version of an account. -/
def update (r : Registry) (a : Account) : Action Unit :=
  Action.timed .update (r.accounts.update a)

/-- The account with a login. -/
def getByLogin (r : Registry) (login : String) : Action (Option Account) :=
  Action.timed .getByLogin do
    match ← r.logins.get login with
    | some u => r.accounts.get u
    | none => return none

/-- The account with an id. -/
def getByUuid (r : Registry) (u : Uuid) : Action (Option Account) :=
  Action.timed .getByUuid (r.accounts.get u)

/-- Frees the login that is recorded in the retry entry of an account without a
    row: a migration may have bound it before its other write failed. -/
def releaseRecorded (r : Registry) (u : Uuid) : Action Unit := do
  match ← r.retries.login u with
  | some login =>
    let _ ← r.logins.release login u
  | none => return

/-- Deletes an account.  Without a row there is nothing but a recorded login to free. -/
def deleteWith (r : Registry) (u : Uuid) (options : DeleteOptions) : Action Unit :=
  Action.timed .delete do
    -- The tombstone comes first: from here on a sweep can finish the delete.
    if options.tombstone then r.tombstones.put u
    match ← r.accounts.get u with
    | none => r.releaseRecorded u
    | some account =>
      -- A login that another account holds by now stays bound to it.
      let _ ← r.logins.release account.login u
      r.accounts.delete u
      match options.version with
      | some version => r.counter.set version
      | none => return

/-- Deletes an account on request. -/
def delete (r : Registry) (u : Uuid) (version : Int64) : Action Unit :=
  r.deleteWith u (.steady version)

/-- The stored directory version. -/
def directoryVersion (r : Registry) : Action (Option Int64) := r.counter.get

end Registry

end LoginRegistry
