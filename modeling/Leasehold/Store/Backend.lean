import Leasehold.Store.Memory
import Leasehold.Store.Sqlite

/-! # Stores that managers can share

A store is a table inside the process or an SQLite database. Both answer the same requests.
-/

namespace Leasehold

/-- A store that a manager can work on. -/
inductive Backend where
  | memory (m : MemoryStore)
  | sqlite (d : SqliteDatabase)
  deriving Repr, DecidableEq, Inhabited

namespace Backend

def label : Backend → String
  | memory _ => "memory"
  | sqlite _ => "sqlite"

/-- A store in which nothing has been done yet. -/
def freshMemory : Backend := .memory .empty

def freshSqlite : Backend := .sqlite .fresh

/-- Answers a request. `now` is the time of the store's clock. -/
def perform (b : Backend) (now : Int) (r : Request) : Except LeaseError Reply × Backend :=
  match b with
  | memory m => let (reply, m) := m.perform now r; (.ok reply, .memory m)
  | sqlite d => let (reply, d) := d.perform now r; (reply, .sqlite d)

/-- Whether a request may still be carried out after its caller has given it up: a database is asked by
    somebody who goes on regardless, a table inside the process is changed by the caller itself. -/
def outlives : Backend → Bool
  | memory _ => false
  | sqlite _ => true

/-- The rows of the store, without asking it; none if there is no table. -/
def rows : Backend → List Record
  | memory m => m.toList
  | sqlite d =>
    match d.table with
    | some t => t.rows
    | none => []

/-- The answer to a listing of the store, rows in the order of their names. -/
def listing (b : Backend) : Except LeaseError (List Record) :=
  (b.perform 0 .listAll).1.map fun reply => sortedRecords reply.recordList

end Backend

end Leasehold
