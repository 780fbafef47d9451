import LoginRegistry.Registry.Action
import LoginRegistry.Registry.Bulk

/-! # The side queues

    A queue is a table keyed on the account id.  One holds the tombstones of
    deleted accounts, the other the accounts whose migration has to be driven
    again, with the login that the migration tried to bind when it is known.
    Entries are put one at a time and removed in bulk.
-/

namespace LoginRegistry

open Store (Write Writes)

/-- The queue in the table of a given name. -/
structure Queue where
  table : String
  bulk : BulkSettings

namespace Queue

/-- Puts an account into the queue. -/
def put (q : Queue) (u : Uuid) : Action Unit :=
  Action.ofStore (Script.put { table := q.table, item := Row.uuidKey u })

/-- Puts an account into the queue together with its login. -/
def putWithLogin (q : Queue) (u : Uuid) (login : String) : Action Unit :=
  Action.ofStore (Script.put { table := q.table, item := Row.ofRetry u login })

/-- The login recorded with an entry. -/
def login (q : Queue) (u : Uuid) : Action (Option String) := do
  let row ← Action.ofStore (Script.get { table := q.table, key := Row.uuidKey u })
  return row.bind Row.login?

/-- Removes an entry. -/
def remove (q : Queue) (u : Uuid) : Action Unit :=
  Action.ofStore (Script.delete { table := q.table, key := Row.uuidKey u })

/-! ### Listing -/

/-- The largest page that is read at once. -/
def maxPage : Nat := 100

/-- Reads pages after `start` until `count` ids are found or the table ends.
    Every page but the last holds an item, so `count` pages are enough. -/
def collect (q : Queue) (count : Nat) :
    Nat → List Uuid → Option Store.Item → Action (List Uuid)
  | 0, found, _ => return found
  | pages + 1, found, start => do
    if found.length < count then
      let page ← Action.ofStore <| Script.scan {
        table := q.table
        limit := min (count - found.length) maxPage
        start := start }
      let uuids ← (page.items.mapM Row.uuid : Except _ _)
      match page.last with
      | some key => collect q count pages (found ++ uuids) (some key)
      | none => return found ++ uuids
    else return found

/-- The first `count` queued ids in key order. -/
def list (q : Queue) (count : Nat) : Action (List Uuid) := do
  return (← q.collect count count [] none).take count

/-! ### Removing in bulk -/

/-- The bulk request that removes some entries. -/
def removal (q : Queue) (uuids : List Uuid) : Writes :=
  SortedMap.single q.table (uuids.map fun u => Write.delete (Row.uuidKey u))

/-- Removes entries, chunk by chunk, and adds up the outcomes. -/
def removeAll (q : Queue) (uuids : List Uuid) : Action BulkOutcome :=
  (q.bulk.chunks uuids).foldlM
    (fun total chunk => do
      let outcome ← Action.ofStore (q.bulk.complete (q.removal chunk))
      Action.orPanic (total.merge? outcome))
    {}

end Queue

end LoginRegistry
