import LoginRegistry.Script
import LoginRegistry.Store.Database

/-! # Answering requests from a database -/

namespace LoginRegistry.Store.Database

/-- The answer to a write: the new database if it succeeds, the old one if not. -/
def written (d : Database) : Except Error Database → Answer Unit × Database
  | .ok d => (.ok (), d)
  | .error e => (.failed e, d)

/-- The answer to a read, which leaves the database as it is. -/
def looked (d : Database) : Except Error α → Answer α × Database
  | .ok a => (.ok a, d)
  | .error e => (.failed e, d)

/-- Answers a request; a bulk write leaves nothing unprocessed. -/
def respond : (request : Request) → Database → Answer request.Reply × Database
  | .put r, d => d.written (d.put r)
  | .update r, d => d.written (d.update r)
  | .delete r, d => d.written (d.delete r)
  | .get r, d => d.looked (d.get r)
  | .bulkWrite w, d =>
    match d.bulkWrite w with
    | .ok d => (.ok .empty, d)
    | .error e => (.failed e, d)
  | .scan r, d => d.looked (d.scan r)

/-- The database as a handler. -/
def handler : Handler Database := ⟨respond⟩

end LoginRegistry.Store.Database
