/-! # Rows of the lease table and the state of a handle -/

namespace Leasehold

/-- A row of the shared table: one named lease, who holds it, and until when. -/
structure Record where
  /-- Name of the lease; the key of the table. -/
  name : String
  /-- Owner id of the manager that claimed it. -/
  owner : String
  /-- Reading after which any participant may delete the row. -/
  expiration : Int
  deriving Repr, DecidableEq, Inhabited

/-- Whether a handle holds its lease. -/
inductive LeaseState where
  | unacquired
  | acquired
  deriving Repr, DecidableEq, Inhabited

namespace LeaseState

def ofAcquired (acquired : Bool) : LeaseState := if acquired then .acquired else .unacquired

def text : LeaseState → String
  | .unacquired => "unacquired"
  | .acquired => "acquired"

end LeaseState

end Leasehold
