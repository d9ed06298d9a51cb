import Leasehold.Store.Request

/-! # A table in an SQL database

The meaning of the statements that are sent to a database, on the one table of leases. The lease
name is its primary key.
-/

namespace Leasehold

/-- The rows of the lease table of a database. -/
structure Table where
  rows : List Record
  deriving Repr, DecidableEq, Inhabited

namespace Table

def empty : Table := ⟨[]⟩

/-- Deletes the rows that satisfy a condition and tells how many they were. -/
def deleteWhere (t : Table) (p : Record → Bool) : Nat × Table :=
  ((t.rows.filter p).length, ⟨t.rows.filter fun r => !p r⟩)

/-- Changes the rows that satisfy a condition and tells how many they are. -/
def updateWhere (t : Table) (p : Record → Bool) (change : Record → Record) : Nat × Table :=
  ((t.rows.filter p).length, ⟨t.rows.map fun r => if p r then change r else r⟩)

/-- The rows that satisfy a condition. -/
def selectWhere (t : Table) (p : Record → Bool) : List Record := t.rows.filter p

/-- Whether the primary key is taken. -/
def hasKey (t : Table) (name : String) : Bool := t.rows.any fun r => r.name = name

/-- Inserts one row; a row whose key is taken is ignored. -/
def insertOrIgnore (t : Table) (r : Record) : Table :=
  if t.hasKey r.name then t else ⟨t.rows ++ [r]⟩

/-- The rows whose key is neither taken nor that of an earlier row. -/
def freshRows (taken : List String) : List Record → List Record
  | [] => []
  | r :: rs =>
    if taken.contains r.name then freshRows taken rs else r :: freshRows (r.name :: taken) rs

/-- Inserts the rows of a query in one statement. A row does nothing if its key is taken, be it in
    the table or by an earlier row of the same query. -/
def insertQuery (t : Table) (query : List Record) : Table :=
  ⟨t.rows ++ freshRows (t.rows.map (·.name)) query⟩

end Table

end Leasehold
