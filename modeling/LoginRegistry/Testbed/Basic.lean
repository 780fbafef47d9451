import LoginRegistry.Registry.Basic
import LoginRegistry.Store.Handler
import LoginRegistry.Testbed.Disruption
import LoginRegistry.Testbed.Faults

/-! # The testbed

    A database behind a fault plan behind a disruption, with the metrics of all
    that ran on it.  Scripts go through both layers; looking at the tables goes
    to the database itself.
-/

namespace LoginRegistry

open Testbed (Disruption FaultPlan)
open Store (Database)

/-- A database with injected faults, and the metrics so far. -/
structure Testbed where
  disruption : Disruption := {}
  plan : FaultPlan := {}
  database : Database := .empty
  metrics : Metrics := .empty

namespace Testbed

/-- The layers from the outside in. -/
def handler : Handler (Disruption × (FaultPlan × Database)) :=
  Disruption.handler (FaultPlan.handler Database.handler)

/-- Runs a script; the result is `none` if it panicked. -/
def run (t : Testbed) (s : Script α) : Option α × Testbed :=
  let run := s.run handler (t.disruption, t.plan, t.database)
  let (disruption, plan, database) := run.state
  (run.result, ⟨disruption, plan, database, run.events.foldl Metrics.record t.metrics⟩)

/-- Adds empty tables, each given by its name and partition attribute. -/
def createTables (t : Testbed) (tables : List (String × String)) : Testbed :=
  { t with database := tables.foldl (fun d e => d.createTable e.1 e.2) t.database }

/-- A testbed with the tables of a registry. -/
def ofTables (tables : TableNames) : Testbed := ({} : Testbed).createTables (Registry.layout tables)

/-- The number of rows in each of some tables. -/
def rowCounts (t : Testbed) (tables : List String) : List Nat :=
  tables.map t.database.itemCount

end Testbed

end LoginRegistry
