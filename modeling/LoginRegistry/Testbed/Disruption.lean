import LoginRegistry.Script

/-! # Partial bulk writes and panics

    A disruption stands before a handler.  It can hold back the last writes of a
    bulk request, which then come back unprocessed, and it can make single-item
    requests and page reads panic before the handler sees them.
-/

namespace LoginRegistry.Testbed

open Store (Operation Request Write Writes)

/-- What is to be disrupted. -/
structure Disruption where
  /-- For each of the next bulk writes, how many writes to hold back. -/
  holdBack : List Nat := []
  /-- How many of the next requests of a kind on a table panic. -/
  panics : List ((Operation × String) × Nat) := []
  deriving DecidableEq

namespace Disruption

/-- Sets how many of the next requests panic. -/
def setPanics (d : Disruption) (operation : Operation) (table : String) (times : Nat) :
    Disruption :=
  { d with
    panics := ((operation, table), times) :: d.panics.filter (·.1 != (operation, table)) }

/-- The disruption after a request panics; `none` if it does not. -/
def panic? (d : Disruption) (operation : Operation) (tables : List String) :
    Option Disruption :=
  d.panics.find? (fun e => e.1.1 == operation && tables.contains e.1.2 && 0 < e.2)
    |>.map fun e => d.setPanics e.1.1 e.1.2 (e.2 - 1)

/-- The last writes of a request, added table by table to the request's tables
    without their writes. -/
def heldWrites (w : Writes) (held : List (String × Write)) : Writes :=
  held.foldl (fun left e => left.append e.1 [e.2]) (w.mapValues fun _ => [])

/-- Answers a bulk write of which the last `count` writes are held back.  The
    rest goes on as one request, unless nothing is left of it. -/
def respondPartly (h : Handler σ) (w : Writes) (count : Nat) (s : σ) : Answer Writes × σ :=
  -- The writes are counted through all tables, in the order of their names.
  let all := w.flatten
  let sent := Writes.ofFlat (all.take (all.length - count))
  let held := heldWrites w (all.drop (all.length - count))
  if sent.isEmpty then (.ok held, s)
  else
    match h.respond (.bulkWrite sent) s with
    | (.ok left, s) => (.ok (left.toList.foldl (fun l e => l.append e.1 e.2) held), s)
    | (.failed error, s) => (.failed error, s)
    | (.panicked, s) => (.panicked, s)

/-- Answers a request, disrupted as planned. -/
def respond (h : Handler σ) :
    (request : Request) → Disruption × σ → Answer request.Reply × (Disruption × σ)
  | .bulkWrite w, (d, s) =>
    match d.holdBack with
    | [] =>
      let (answer, s) := h.respond (.bulkWrite w) s
      (answer, d, s)
    | count :: rest =>
      let (answer, s) := respondPartly h w count s
      (answer, { d with holdBack := rest }, s)
  | request, (d, s) =>
    match d.panic? request.operation request.tables with
    | some d => (.panicked, d, s)
    | none =>
      let (answer, s) := h.respond request s
      (answer, d, s)

/-- A handler behind a disruption. -/
def handler (h : Handler σ) : Handler (Disruption × σ) := ⟨respond h⟩

end Disruption

end LoginRegistry.Testbed
