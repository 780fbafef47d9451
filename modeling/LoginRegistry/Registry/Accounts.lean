import LoginRegistry.Registry.Action

/-! # The account table

    Accounts by id.  Every write is a single conditional request, so it is either
    applied as a whole or refused.
-/

namespace LoginRegistry

open Store (Condition)

/-- The account table of a given name. -/
structure AccountTable where
  name : String

namespace AccountTable

/-- Writes the row unless the id has a row with another login. -/
def create (t : AccountTable) (a : Account) : Action Unit := do
  let applied ← Action.unlessRefused <| Script.put {
    table := t.name
    item := Row.ofAccount a
    condition := some (.or (.absent Row.uuidName) (.equals Row.loginName (.string a.login))) }
  unless applied do throw (.identifierCollision a.uuid)

/-- Replaces payload and version of a row that is there. -/
def update (t : AccountTable) (a : Account) : Action Unit := do
  let applied ← Action.unlessRefused <| Script.update {
    table := t.name
    key := Row.uuidKey a.uuid
    set := Row.changes a
    condition := some (.present Row.loginName) }
  unless applied do throw (.accountNotFound a.uuid)

/-- Reads the row of an id. -/
def get (t : AccountTable) (u : Uuid) : Action (Option Account) := do
  match ← Action.ofStore (Script.get { table := t.name, key := Row.uuidKey u }) with
  | none => return none
  | some row => return some (← (Row.account row : Except _ _))

/-- Removes the row of an id. -/
def delete (t : AccountTable) (u : Uuid) : Action Unit :=
  Action.ofStore (Script.delete { table := t.name, key := Row.uuidKey u })

/-- Removes the row of an id while it has a given login; whether it did. -/
def deleteIfLogin (t : AccountTable) (u : Uuid) (login : String) : Action Bool :=
  Action.unlessRefused <| Script.delete {
    table := t.name
    key := Row.uuidKey u
    condition := some (.equals Row.loginName (.string login)) }

/-- Writes the row unless one of at least its version is there; whether it did. -/
def migrate (t : AccountTable) (a : Account) : Action Bool :=
  Action.unlessRefused <| Script.put {
    table := t.name
    item := Row.ofAccount a
    condition := some (.or (.absent Row.uuidName)
      (.lessThan Row.versionName (.number a.migrationVersion.toInt64))) }

end AccountTable

end LoginRegistry
