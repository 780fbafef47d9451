import LoginRegistry.Registry.Action

/-! # The login index

    Each login is bound to at most one account.  A claim succeeds while the login
    is free or already the claimant's, otherwise it names the owner.
-/

namespace LoginRegistry

open Store (Put)

/-- The login table of a given name. -/
structure LoginIndex where
  name : String

/-- The outcome of a claim. -/
inductive Claim where
  /-- The login is bound to the claimant. -/
  | claimed
  /-- The login is bound to another account. -/
  | owned (owner : Uuid)
  deriving DecidableEq

namespace LoginIndex

/-- Binds a login unless another account has it; a refusal reports the row. -/
def bindRequest (t : LoginIndex) (login : String) (u : Uuid) : Put where
  table := t.name
  item := Row.ofLogin login u
  condition := some (.or (.absent Row.loginName) (.equals Row.uuidName (Row.uuidValue u)))
  returnOld := true

/-- The account that a login is bound to. -/
def get (t : LoginIndex) (login : String) : Action (Option Uuid) := do
  match ← Action.ofStore (Script.get { table := t.name, key := Row.loginKey login }) with
  | none => return none
  | some row => return some (← (Row.uuid row : Except _ _))

/-- Binds a login to an account, or tells who has it.  The owner is read from the
    reported row, or from the table if the refusal came without one. -/
def claim (t : LoginIndex) (login : String) (u : Uuid) : Action Claim := do
  match ← Script.put (t.bindRequest login u) with
  | .ok () => return .claimed
  | .error (.conditionFailed _ (some row)) => return .owned (← (Row.uuid row : Except _ _))
  | .error (.conditionFailed _ none) =>
    match ← t.get login with
    | some owner => return .owned owner
    | none => throw (.loginOwnerMissing login)
  | .error e => throw (.store e)

/-- Binds a login for a migrated account; whether it could. -/
def migrate (t : LoginIndex) (login : String) (u : Uuid) : Action Bool :=
  Action.unlessRefused (Script.put (t.bindRequest login u))

/-- Frees a login that is bound to an account; whether it was. -/
def release (t : LoginIndex) (login : String) (u : Uuid) : Action Bool :=
  Action.unlessRefused <| Script.delete {
    table := t.name
    key := Row.loginKey login
    condition := some (.equals Row.uuidName (Row.uuidValue u)) }

end LoginIndex

end LoginRegistry
