import LoginRegistry.Config.Error
import LoginRegistry.Store.Request

/-! # The store in memory

    A database maps table names to tables, and a table maps the value of its
    partition attribute to an item.  Every request first finds its table, then
    the key, then checks the condition, and only then changes anything.
-/

namespace LoginRegistry.Store

/-- A table. -/
structure Table where
  /-- The name of the attribute whose value is the key. -/
  partition : String
  /-- The items by key. -/
  items : SortedMap AttributeValue Item := .empty
  deriving DecidableEq

/-- Tables by name. -/
abbrev Database := SortedMap String Table

namespace Table

/-- The key of an item or key item. -/
def keyOf (t : Table) (name : String) (item : Item) : Except Error AttributeValue :=
  match item.get? t.partition with
  | some key => .ok key
  | none => .error (.invalid (.missingKey t.partition name))

/-- Checks a condition against the item under a key. -/
def check (t : Table) (name : String) (key : AttributeValue) (condition : Option Condition)
    (returnOld : Bool) : Except Error Unit :=
  match condition with
  | none => .ok ()
  | some c =>
    let stored := t.items.get? key
    if c.holds stored then .ok ()
    else .error (.conditionFailed name (if returnOld then stored else none))

/-- Stores an item under a key. -/
def put (t : Table) (key : AttributeValue) (item : Item) : Table :=
  { t with items := t.items.insert key item }

/-- Removes the item under a key. -/
def delete (t : Table) (key : AttributeValue) : Table :=
  { t with items := t.items.erase key }

/-- Applies a write that holds the partition attribute; another changes nothing. -/
def apply (t : Table) (w : Write) : Table :=
  match w.item.get? t.partition, w with
  | some key, .put item => t.put key item
  | some key, .delete _ => t.delete key
  | none, _ => t

/-- The page of at most `limit` items after a key. -/
def page (t : Table) (limit : Nat) (start : Option AttributeValue) : Page :=
  let remaining := t.items.after start
  let items := (remaining.take limit).map Prod.snd
  let last :=
    if (remaining.drop limit).isEmpty then none
    else items.getLast?.bind fun item =>
      (item.get? t.partition).map (Item.key t.partition)
  ⟨items, last⟩

end Table

namespace Database

/-! ### Tables -/

/-- Adds an empty table; a table of that name stays as it is. -/
def createTable (d : Database) (name partition : String) : Database :=
  if d.contains name then d else d.insert name { partition := partition }

/-- The number of items in a table, 0 if there is no such table. -/
def itemCount (d : Database) (name : String) : Nat :=
  match d.get? name with
  | some t => t.items.size
  | none => 0

/-- The items of a table in key order. -/
def items (d : Database) (name : String) : List Item :=
  match d.get? name with
  | some t => t.items.values
  | none => []

/-- Removes every item of every table. -/
def clear (d : Database) : Database := d.mapValues fun t => { t with items := .empty }

/-- The table of a name. -/
def table (d : Database) (name : String) : Except Error Table :=
  match d.get? name with
  | some t => .ok t
  | none => .error (.tableNotFound name)

/-! ### Requests -/

/-- Answers a put. -/
def put (d : Database) (r : Put) : Except Error Database := do
  let t ← d.table r.table
  let key ← t.keyOf r.table r.item
  t.check r.table key r.condition r.returnOld
  return d.insert r.table (t.put key r.item)

/-- Answers an update. -/
def update (d : Database) (r : Update) : Except Error Database := do
  let t ← d.table r.table
  let key ← t.keyOf r.table r.key
  t.check r.table key r.condition false
  -- An item that is not there starts out as its key.
  let item := (t.items.get? key).getD r.key
  return d.insert r.table (t.put key (item.union r.set))

/-- Answers a delete. -/
def delete (d : Database) (r : Delete) : Except Error Database := do
  let t ← d.table r.table
  let key ← t.keyOf r.table r.key
  t.check r.table key r.condition false
  return d.insert r.table (t.delete key)

/-- Answers a read. -/
def get (d : Database) (r : Get) : Except Error (Option Item) := do
  let t ← d.table r.table
  let key ← t.keyOf r.table r.key
  return t.items.get? key

/-- Answers a paged read. -/
def scan (d : Database) (r : Scan) : Except Error Page := do
  let t ← d.table r.table
  let start ← r.start.mapM (t.keyOf r.table)
  return t.page (max r.limit 1) start

/-- Checks that a table is there and that each write holds its partition attribute. -/
def checkWrites (d : Database) (name : String) (writes : List Write) : Except Error Unit := do
  let t ← d.table name
  writes.forM fun w => discard (t.keyOf name w.item)

/-- Applies one write of a bulk request. -/
def applyWrite (d : Database) (e : String × Write) : Database :=
  match d.get? e.1 with
  | some t => d.insert e.1 (t.apply e.2)
  | none => d

/-- Answers a bulk write: the size is checked first, then every table and key,
    and only then the writes are applied, all of them. -/
def bulkWrite (d : Database) (w : Writes) : Except Error Database := do
  if w.count = 0 ∨ maxBulkWrites < w.count then
    throw (.invalid (.bulkSize maxBulkWrites w.count))
  w.toList.forM fun e => d.checkWrites e.1 e.2
  return w.flatten.foldl applyWrite d

end Database

end LoginRegistry.Store
