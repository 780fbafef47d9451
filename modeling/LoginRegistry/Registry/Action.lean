import LoginRegistry.Registry.Row
import LoginRegistry.Script

/-! # Actions

    An action is a script that may end with an error of the registry.
-/

namespace LoginRegistry

/-- A script that may end with an error of the registry. -/
abbrev Action := ExceptT RegistryError Script

namespace Action

/-- A request whose every error is one of the action. -/
def ofStore (s : Script (Except Store.Error α)) : Action α := do
  match ← s with
  | .ok a => return a
  | .error e => throw (.store e)

/-- A write that may be refused by its condition: whether it was applied. -/
def unlessRefused (s : Script (Except Store.Error Unit)) : Action Bool := do
  match ← s with
  | .ok () => return true
  | .error (.conditionFailed ..) => return false
  | .error e => throw (.store e)

/-- A value that is there, or a panic. -/
def orPanic : Option α → Action α
  | some a => pure a
  | none => ExceptT.mk .panic

/-- Samples the latency of an action, however it ends unless by a panic. -/
def timed (operation : TimedOperation) (a : Action α) : Action α := ExceptT.mk do
  let result ← a.run
  Script.report (.timed operation)
  return result

end Action

end LoginRegistry
