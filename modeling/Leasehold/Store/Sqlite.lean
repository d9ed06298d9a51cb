import Leasehold.Store.Table

/-! # A lease table in SQLite

A database that has the lease table or does not have it. Every statement on a missing table fails,
and the failure names what was being done.
-/

namespace Leasehold

/-- An SQLite database, as far as the lease table goes. -/
structure SqliteDatabase where
  /-- The lease table, once it has been created. -/
  table : Option Table
  deriving Repr, DecidableEq, Inhabited

namespace SqliteDatabase

def fresh : SqliteDatabase := ⟨none⟩

/-- What a request is called in a failure. -/
def activity : Request → String
  | .referenceTime => "read clock"
  | .ensureSchema => "create table"
  | .dropSchema => "drop table"
  | .deleteExpired _ => "delete expired"
  | .refreshOwned _ _ => "refresh"
  | .claimAbsent _ _ _ => "claim"
  | .selectOwned _ => "select owned"
  | .deleteOwned _ _ => "delete owned"
  | .listAll => "list"

/-- The failure of a statement on a missing table. -/
def missingTable (r : Request) : LeaseError :=
  .store ("SQLite " ++ activity r ++ " failed: no such table: leases")

/-- The failure to open a database file. -/
def cannotOpen (path : String) : LeaseError :=
  .store ("Failed to open SQLite database " ++ path ++ ": unable to open database file: " ++ path)

/-- Claims each name by a statement of its own, all of them in one transaction. -/
def claim (t : Table) (names : List String) (owner : String) (expiration : Int) : Table :=
  names.foldl (fun t name => t.insertOrIgnore ⟨name, owner, expiration⟩) t

/-- Runs the statements of a request on an existing table. -/
def onTable (t : Table) (now : Int) : Request → Reply × Table
  | .referenceTime => (.time now, t)
  | .ensureSchema => (.done, t)
  | .dropSchema => (.done, t)
  | .deleteExpired before =>
      let (n, t) := t.deleteWhere fun r => r.expiration < before
      (.count n, t)
  | .refreshOwned owner expiration =>
      let (n, t) := t.updateWhere (fun r => r.owner = owner) fun r => { r with expiration }
      (.count n, t)
  | .claimAbsent names owner expiration => (.done, claim t names owner expiration)
  | .selectOwned owner => (.names ((t.selectWhere fun r => r.owner = owner).map (·.name)), t)
  | .deleteOwned name owner =>
      let (n, t) := t.deleteWhere fun r => r.name = name && r.owner = owner
      (.deleted (0 < n), t)
  | .listAll => (.records (t.selectWhere fun _ => true), t)

/-- Answers a request. `now` is the time of the store's clock. -/
def perform (d : SqliteDatabase) (now : Int) (r : Request) :
    Except LeaseError Reply × SqliteDatabase :=
  match r with
  | .referenceTime => (.ok (.time now), d)
  | .ensureSchema => (.ok .done, ⟨some (d.table.getD .empty)⟩)
  | .dropSchema => (.ok .done, ⟨none⟩)
  | r =>
    match d.table with
    | none => (.error (missingTable r), d)
    | some t => let (reply, t) := onTable t now r; (.ok reply, ⟨some t⟩)

end SqliteDatabase

end Leasehold
