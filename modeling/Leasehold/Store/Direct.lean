import Leasehold.Store.Backend

/-! # Using a store without a manager

Calls on a store as its own users make them: the requests of managers, the name of the store, and
reading or writing single rows of a table inside the process.
-/

namespace Leasehold

inductive DirectCall where
  | label
  | request (r : Request)
  /-- Write a row of a table inside the process. -/
  | put (r : Record)
  /-- Read a row of a table inside the process. -/
  | get (name : String)
  deriving Repr, DecidableEq, Inhabited

inductive DirectAnswer where
  | label (name : String)
  | reply (r : Reply)
  | row (r : Option Record)
  | failed (e : LeaseError)
  /-- The call is for a table inside the process only. -/
  | memoryOnly
  deriving Repr, DecidableEq, Inhabited

namespace Backend

def direct (b : Backend) (now : Int) : DirectCall → DirectAnswer × Backend
  | .label => (.label b.label, b)
  | .request r =>
    match b.perform now r with
    | (.ok reply, b) => (.reply reply, b)
    | (.error e, b) => (.failed e, b)
  | .put r =>
    match b with
    | memory m => (.reply .done, .memory (m.put r))
    | sqlite d => (.memoryOnly, .sqlite d)
  | .get name =>
    match b with
    | memory m => (.row (m.get? name), .memory m)
    | sqlite d => (.memoryOnly, .sqlite d)

end Backend

end Leasehold
