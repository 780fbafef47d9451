import LoginRegistry.Store.Condition
import LoginRegistry.Store.Error

/-! # Requests to the store

    Single-item requests name a table and an item or key.  A bulk write groups
    unconditional writes by table; what it leaves unprocessed has the same shape.
-/

namespace LoginRegistry.Store

/-! ### Single-item requests -/

/-- Writes a full item. -/
structure Put where
  table : String
  item : Item
  condition : Option Condition := none
  /-- Whether a failed condition reports the stored item. -/
  returnOld : Bool := false
  deriving DecidableEq

/-- Overwrites attributes of an item, which is created from the key if it is not there. -/
structure Update where
  table : String
  key : Item
  set : Item
  condition : Option Condition := none
  deriving DecidableEq

/-- Removes an item, if it is there. -/
structure Delete where
  table : String
  key : Item
  condition : Option Condition := none
  deriving DecidableEq

/-- Reads an item. -/
structure Get where
  table : String
  key : Item
  deriving DecidableEq

/-! ### Paged reads -/

/-- Reads a page of a table in key order. -/
structure Scan where
  table : String
  /-- The largest number of items in the page; 0 counts as 1. -/
  limit : Nat
  /-- The key to go on after. -/
  start : Option Item := none
  deriving DecidableEq

/-- A page of a table. -/
structure Page where
  items : List Item
  /-- The key to go on after; `none` at the end of the table. -/
  last : Option Item
  deriving DecidableEq

/-! ### Bulk writes -/

/-- One write of a bulk request. -/
inductive Write where
  | put (item : Item)
  | delete (key : Item)
  deriving DecidableEq

/-- The item or key of a write, which holds the partition attribute. -/
def Write.item : Write → Item
  | .put item => item
  | .delete key => key

/-- Writes by table. -/
abbrev Writes := SortedMap String (List Write)

namespace Writes

/-- The writes in order: tables by name, each table's writes as listed. -/
def flatten (w : Writes) : List (String × Write) :=
  w.toList.flatMap fun e => e.2.map fun write => (e.1, write)

/-- The number of writes. -/
def count (w : Writes) : Nat := w.flatten.length

/-- Adds writes at the end of a table's list. -/
def append (w : Writes) (table : String) (writes : List Write) : Writes :=
  w.insert table ((w.get? table).getD [] ++ writes)

/-- Groups writes by table. -/
def ofFlat (writes : List (String × Write)) : Writes :=
  writes.foldl (fun w e => append w e.1 [e.2]) .empty

/-- Leaves out the tables without writes. -/
def compact (w : Writes) : Writes := w.filterValues fun writes => !writes.isEmpty

end Writes

/-! ### Requests and replies -/

/-- The kinds of requests. -/
inductive Operation where
  | put
  | update
  | delete
  | get
  | bulkWrite
  | scan
  deriving DecidableEq, Repr

/-- A request to the store. -/
inductive Request where
  | put (r : Put)
  | update (r : Update)
  | delete (r : Delete)
  | get (r : Get)
  | bulkWrite (w : Writes)
  | scan (r : Scan)
  deriving DecidableEq

/-- What a successful request returns.  A bulk write returns what it left unprocessed. -/
abbrev Request.Reply : Request → Type
  | .put _ | .update _ | .delete _ => Unit
  | .get _ => Option Item
  | .bulkWrite _ => Writes
  | .scan _ => Page

/-- The kind of a request. -/
def Request.operation : Request → Operation
  | .put _ => .put
  | .update _ => .update
  | .delete _ => .delete
  | .get _ => .get
  | .bulkWrite _ => .bulkWrite
  | .scan _ => .scan

/-- The tables that a request names, by name. -/
def Request.tables : Request → List String
  | .put r => [r.table]
  | .update r => [r.table]
  | .delete r => [r.table]
  | .get r => [r.table]
  | .bulkWrite w => w.keys
  | .scan r => [r.table]

end LoginRegistry.Store
