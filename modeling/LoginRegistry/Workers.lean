import LoginRegistry.Script

/-! # Workers

    Scripts that run side by side make their requests in an order that is not theirs to
    choose.  The order is given as turns.  At each turn one of the scripts makes one move: a
    request or a report.  When the turns are used up the scripts are finished one after the
    other, so without turns nothing overlaps.
-/

namespace LoginRegistry

/-- The order in which the workers of several accounts move. -/
structure Turns where
  /-- For each account in turn the order of its own two workers. -/
  workers : List (List Bool) := []
  /-- The order of the accounts that are under way. -/
  accounts : List Nat := []

namespace Script

/-- Makes the first move of a script and goes on with what is left of it. -/
def move : Script α → (Script α → Script β) → Script β
  | .call request next, f => .call request fun answer => f (next answer)
  | .record event next, f => .record event (f next)
  | .done a, f => f (.done a)
  | .panic, f => f .panic

/-- Whether a script has no moves left. -/
def isOver : Script α → Bool
  | .done _ | .panic => true
  | .call .. | .record .. => false

/-- Runs two scripts side by side.  A turn tells whether it is the second one that moves. -/
def both : List Bool → Script α → Script β → Script (α × β)
  | [], s, t => do
    let a ← s
    let b ← t
    return (a, b)
  | false :: turns, s, t => s.move fun s => both turns s t
  | true :: turns, s, t => t.move fun t => both turns s t

/-- The places of the scripts that are under way: the first ones that are not over, as many as
    may run at a time. -/
def underWay (width : Nat) (scripts : List (Script α)) : List Nat :=
  ((List.range scripts.length).filter fun i => scripts[i]?.any (!·.isOver)).take width

/-- Runs scripts side by side, up to `width` of them at a time: when one is over, the next one in
    the list is taken up.  A turn tells which of those under way moves. -/
def pool (width : Nat) : List Nat → List (Script α) → Script (List α)
  | [], scripts => scripts.mapM id
  | turn :: turns, scripts =>
    match (underWay width scripts)[turn]? with
    | none => pool width turns scripts
    | some i =>
      match scripts[i]? with
      | none => pool width turns scripts
      | some s => s.move fun s => pool width turns (scripts.set i s)

end Script

end LoginRegistry
