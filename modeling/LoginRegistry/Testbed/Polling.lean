/-! # Polling

    Waiting for a condition by checking it again and again.  Time is counted in
    poll intervals, so the model is exact where checks take no time.
-/

namespace LoginRegistry.Testbed

/-- How a wait ended. -/
structure Polled where
  /-- Whether the condition came true. -/
  holds : Bool
  /-- The number of checks made. -/
  checks : Nat
  deriving DecidableEq, Repr

/-- Milliseconds between two checks. -/
def pollInterval : Nat := 10

/-- Checks up to `polls` times and then once more, after the timeout.  `made` is
    the number of checks before. -/
def poll (condition : Nat → Bool) : Nat → Nat → Polled
  | 0, made => ⟨condition (made + 1), made + 1⟩
  | polls + 1, made =>
    if condition (made + 1) then ⟨true, made + 1⟩ else poll condition polls (made + 1)

/-- Waits until the condition holds of the number of a check, at most for a timeout
    in milliseconds.  Without time there is the one check at the end. -/
def eventually (timeout : Nat) (condition : Nat → Bool) : Polled :=
  poll condition ((timeout + pollInterval - 1) / pollInterval) 0

end LoginRegistry.Testbed
