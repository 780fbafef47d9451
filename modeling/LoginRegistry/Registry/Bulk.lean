import LoginRegistry.Config.BulkWrites
import LoginRegistry.Script

/-! # Bulk writes

    A bulk request may be left partly unprocessed.  `BulkSettings.complete` sends
    the remainder again, for a bounded number of times.  What is left in the end
    is counted and is no error.  A counter that overflows is a panic.
-/

namespace LoginRegistry

open Store (Writes)

/-- What became of bulk writes. -/
structure BulkOutcome where
  /-- Requests sent. -/
  attempts : UInt32 := 0
  /-- Writes left unprocessed. -/
  unprocessed : Nat := 0
  deriving DecidableEq, Repr

namespace BulkOutcome

/-- Whether every write was applied. -/
def isComplete (o : BulkOutcome) : Bool := o.unprocessed == 0

/-- The sum of two outcomes; `none` when the requests overflow their 32 bits or the writes the 64
    bits of a size. -/
def merge? (o p : BulkOutcome) : Option BulkOutcome :=
  if o.attempts.toNat + p.attempts.toNat < UInt32.size ∧
      o.unprocessed + p.unprocessed < UInt64.size then
    some ⟨o.attempts + p.attempts, o.unprocessed + p.unprocessed⟩
  else none

end BulkOutcome

namespace BulkSettings

/-- How often a counter of 32 bits can be raised from 0. -/
def counterRoom : Nat := UInt32.size - 1

/-- Sends pending writes, and again what each request leaves unprocessed, until nothing is left
    or the counter of requests is above the maximum.  A request is counted when it is answered;
    the counter can be raised `room` times more. -/
def resend (s : BulkSettings) (room : Nat) (attempts : UInt32) (pending : Writes) :
    Script (Except Store.Error BulkOutcome) := do
  Script.report (.bulkRequest (attempts == 0))
  match ← Script.bulkWrite pending with
  | .error e => return .error e
  | .ok left =>
    match room with
    | 0 => Script.panic
    | room + 1 =>
      let attempts := attempts + 1
      let pending := left.compact
      if pending.isEmpty then return .ok ⟨attempts, 0⟩
      -- The first request is no retry.
      else if s.maxAttempts < attempts then
        Script.report (.bulkLeftOver pending.count)
        return .ok ⟨attempts, pending.count⟩
      else resend s room attempts pending
termination_by structural room

/-- Sends writes and then, up to the maximum, what is left of them.  Without
    writes nothing is sent. -/
def complete (s : BulkSettings) (writes : Writes) : Script (Except Store.Error BulkOutcome) :=
  let pending := writes.compact
  if pending.isEmpty then return .ok {} else s.resend counterRoom 0 pending

/-! ### Chunks -/

/-- Cuts a list into chunks of a size, the last one possibly shorter.  `chunk`
    holds the elements of the chunk begun, last one first. -/
def cut (size : Nat) (chunk : List α) : List α → List (List α)
  | [] => if chunk.isEmpty then [] else [chunk.reverse]
  | a :: rest =>
    if chunk.length + 1 = size then (a :: chunk).reverse :: cut size [] rest
    else cut size (a :: chunk) rest

/-- The chunks of a list that are written at once. -/
def chunks (s : BulkSettings) (all : List α) : List (List α) :=
  cut (max s.maxBatchSize.toNat 1) [] all

/-- Does an action for each chunk, up to the first failure. -/
def inChunks [Monad μ] (s : BulkSettings) (all : List α) (action : List α → μ PUnit) : μ PUnit :=
  (s.chunks all).forM action

end BulkSettings

end LoginRegistry
