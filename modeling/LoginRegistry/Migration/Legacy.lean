import LoginRegistry.Account
import LoginRegistry.SortedMap

/-! # The legacy source

    The store that accounts are migrated from, as far as a re-drive sees it: it
    loads an account by id, or fails.
-/

namespace LoginRegistry

/-- A failure of the legacy source. -/
structure LegacyError where
  /-- What failed, in the words of the source. -/
  reason : String
  deriving DecidableEq, Repr

/-- The wording of a failure. -/
def LegacyError.message (e : LegacyError) : String := s!"legacy store error: {e.reason}"

/-- What comes back from a load. -/
inductive Loaded where
  /-- The account as it is now; `none` if it is gone. -/
  | account (found : Option Account)
  /-- The source failed. -/
  | failed (error : LegacyError)
  /-- The load panicked. -/
  | panicked

/-- A legacy source in memory. -/
structure LegacySource where
  /-- The accounts by id. -/
  accounts : SortedMap Uuid Account := .empty
  /-- The outage that every load reports. -/
  outage : Option LegacyError := none
  /-- The ids whose load panics in a worker. -/
  panics : List Uuid := []

namespace LegacySource

/-- Adds an account, in place of one with its id. -/
def insert (s : LegacySource) (a : Account) : LegacySource :=
  { s with accounts := s.accounts.insert a.uuid a }

/-- Removes an account; the account that was there. -/
def remove (s : LegacySource) (u : Uuid) : Option Account × LegacySource :=
  (s.accounts.get? u, { s with accounts := s.accounts.erase u })

/-- Loads an account: an outage comes before everything else. -/
def load (s : LegacySource) (u : Uuid) : Except LegacyError (Option Account) :=
  match s.outage with
  | some e => .error e
  | none => .ok (s.accounts.get? u)

/-- Loads an account in a worker. -/
def loadInWorker (s : LegacySource) (u : Uuid) : Loaded :=
  if s.panics.contains u then .panicked
  else
    match s.load u with
    | .ok found => .account found
    | .error e => .failed e

end LegacySource

end LoginRegistry
