import LoginRegistry.Script

/-! # Injected faults

    A fault plan stands before a handler and decides for each request whether it
    fails instead of being passed on.  A fault is armed for an operation and for
    one table or for all, and it lasts until it is cleared or for a number of
    requests.  Of several faults that match, the one armed first is delivered.

    Bulk writes can also be left unprocessed for a number of rounds, and puts on
    one table can be marked slow.  Requests are answered one at a time, so there is
    no more to see of slow puts than whether there was one.
-/

namespace LoginRegistry.Testbed

open Store (Operation Request)

/-! ### Faults -/

/-- An armed fault. -/
structure Fault where
  /-- The operation that fails. -/
  operation : Operation
  /-- The table, or `none` for every table. -/
  table : Option String
  /-- The error that is delivered. -/
  error : Store.Error
  /-- How often it is still delivered; `none` for always. -/
  remaining : Option Nat
  deriving DecidableEq

namespace Fault

/-- Whether the fault is to be delivered to a request. -/
def hits (f : Fault) (operation : Operation) (table : String) : Bool :=
  f.operation == operation && f.table.all (· == table) && f.remaining != some 0

/-- The fault after one more delivery. -/
def spend (f : Fault) : Fault := { f with remaining := f.remaining.map (· - 1) }

/-- The error of the first fault that is hit, and the faults after its delivery. -/
def deliver? (operation : Operation) (table : String) :
    List Fault → Option (Store.Error × List Fault)
  | [] => none
  | f :: faults =>
    if f.hits operation table then some (f.error, f.spend :: faults)
    else (deliver? operation table faults).map fun (error, rest) => (error, f :: rest)

end Fault

/-! ### Fault plans -/

/-- The faults that are armed and what was seen so far. -/
structure FaultPlan where
  /-- The armed faults, first one first. -/
  faults : List Fault := []
  /-- Bulk writes that are still to be left unprocessed as a whole. -/
  unprocessedRounds : Nat := 0
  /-- The operations that were asked for, last one first. -/
  log : List Operation := []
  /-- The table whose puts are slow. -/
  slowTable : Option String := none
  /-- Whether a slow put has been passed on. -/
  slowPutSeen : Bool := false
  deriving DecidableEq

namespace FaultPlan

/-- Arms a fault that is delivered until it is cleared. -/
def fail (p : FaultPlan) (operation : Operation) (table : Option String) (error : Store.Error) :
    FaultPlan :=
  { p with faults := p.faults ++ [⟨operation, table, error, none⟩] }

/-- Arms a fault that is delivered a number of times. -/
def failTimes (p : FaultPlan) (operation : Operation) (table : Option String)
    (error : Store.Error) (times : Nat) : FaultPlan :=
  { p with faults := p.faults ++ [⟨operation, table, error, some times⟩] }

/-- Disarms every fault. -/
def clear (p : FaultPlan) : FaultPlan := { p with faults := [] }

/-- How often an operation was asked for. -/
def calls (p : FaultPlan) (operation : Operation) : Nat := p.log.count operation

/-- Logs an operation on a table and delivers the first fault that it hits. -/
def intercept (p : FaultPlan) (operation : Operation) (table : String) :
    Option Store.Error × FaultPlan :=
  let p := { p with log := operation :: p.log }
  match Fault.deliver? operation table p.faults with
  | some (error, faults) => (some error, { p with faults := faults })
  | none => (none, p)

/-- Intercepts an operation on each of its tables, up to the first fault. -/
def interceptAll (p : FaultPlan) (operation : Operation) :
    List String → Option Store.Error × FaultPlan
  | [] => (none, p)
  | table :: tables =>
    match p.intercept operation table with
    | (some error, p) => (some error, p)
    | (none, p) => p.interceptAll operation tables

/-- Notes a put on a table. -/
def notePut (p : FaultPlan) (table : String) : FaultPlan :=
  { p with slowPutSeen := p.slowPutSeen || p.slowTable == some table }

/-- Passes a request on, unless it is a bulk write to be left unprocessed. -/
def forward (h : Handler σ) :
    (request : Request) → FaultPlan × σ → Answer request.Reply × (FaultPlan × σ)
  | .bulkWrite w, (p, s) =>
    -- A round is used up even by a request that the handler would refuse.
    if 0 < p.unprocessedRounds then
      (.ok w, { p with unprocessedRounds := p.unprocessedRounds - 1 }, s)
    else
      let (answer, s) := h.respond (.bulkWrite w) s
      (answer, p, s)
  | .put r, (p, s) =>
    let (answer, s) := h.respond (.put r) s
    (answer, p.notePut r.table, s)
  | request, (p, s) =>
    let (answer, s) := h.respond request s
    (answer, p, s)

/-- Answers a request with a fault that it hits, otherwise passes it on. -/
def respond (h : Handler σ) (request : Request) (state : FaultPlan × σ) :
    Answer request.Reply × (FaultPlan × σ) :=
  match state.1.interceptAll request.operation request.tables with
  | (some error, p) => (.failed error, p, state.2)
  | (none, p) => forward h request (p, state.2)

/-- A handler behind a fault plan. -/
def handler (h : Handler σ) : Handler (FaultPlan × σ) := ⟨respond h⟩

end FaultPlan

end LoginRegistry.Testbed
