import Leasehold.Postgres.Statement

/-! # A server with the lease table

An ideal server that hosts the lease table, and a list of faults that it can be told to have. It
offers no encryption.
-/

namespace Leasehold.Postgres

/-- What a fault can be attached to. -/
inductive FaultPlace where
  | connect
  | version
  | clock (way : Dialect)
  | create
  | drop
  | deleteExpired
  | refresh
  | claim
  | selectOwned
  | deleteOwned
  | list
  deriving Repr, DecidableEq, Inhabited

/-- In what way the server fails. -/
inductive FaultKind where
  | error
  /-- The connection closes instead of an answer. -/
  | close
  /-- The statement takes effect, then the connection closes. -/
  | after
  | hang
  /-- No rows where there should be some. -/
  | noRows
  /-- Two rows where there should be one. -/
  | twoRows
  /-- The first column cannot be read. -/
  | unreadable
  deriving Repr, DecidableEq, Inhabited

/-- A fault that the server will have the given number of times. -/
structure Fault where
  place : FaultPlace
  kind : FaultKind
  times : Nat
  deriving Repr, DecidableEq, Inhabited

def Statement.place : Statement → FaultPlace
  | version => .version
  | clock way => .clock way
  | createTable => .create
  | dropTable => .drop
  | deleteExpired _ => .deleteExpired
  | refresh _ _ => .refresh
  | claim _ _ _ => .claim
  | selectOwned _ => .selectOwned
  | deleteOwned _ _ => .deleteOwned
  | list => .list

structure Server where
  /-- What the server tells about its version. -/
  version : String
  now : Int
  table : Option Table
  faults : List Fault
  /-- Connections accepted so far. -/
  accepted : Nat
  deriving Repr, DecidableEq, Inhabited

namespace Server

/-- Takes the first fault that applies and counts it down. -/
def takeFault (place : FaultPlace) : List Fault → Option FaultKind × List Fault
  | [] => (none, [])
  | f :: fs =>
    if f.place = place && 0 < f.times then
      (some f.kind, if f.times = 1 then fs else { f with times := f.times - 1 } :: fs)
    else
      let (k, fs) := takeFault place fs
      (k, f :: fs)

/-- Rows of the table as they are sent. -/
def toCells (r : Record) : List Cell := [.text r.name, .text r.owner, .integer r.expiration]

/-- The meaning of a statement on the table: `none` if it fails. -/
def execute (s : Server) (st : Statement) : Option Result × Option Table :=
  match st with
  | .version => (some (.rows [[.text s.version]]), s.table)
  | .clock _ => (some (.rows [[.integer s.now]]), s.table)
  | .createTable => (some (.touched 0), some (s.table.getD .empty))
  | .dropTable => (some (.touched 0), none)
  | st =>
    match s.table with
    | none => (none, none)
    | some t =>
      match st with
      | .deleteExpired now =>
          let (n, t) := t.deleteWhere fun r => r.expiration < now
          (some (.touched n), some t)
      | .refresh owner expiration =>
          let (n, t) := t.updateWhere (fun r => r.owner = owner) fun r => { r with expiration }
          (some (.touched n), some t)
      | .claim names owner expiration =>
          let next := t.insertQuery (names.map fun name => ⟨name, owner, expiration⟩)
          (some (.touched (next.rows.length - t.rows.length)), some next)
      | .selectOwned owner =>
          (some (.rows ((t.selectWhere fun r => r.owner = owner).map fun r => [.text r.name])),
            some t)
      | .deleteOwned name owner =>
          let (n, t) := t.deleteWhere fun r => r.name = name && r.owner = owner
          (some (.touched n), some t)
      | _ => (some (.rows ((t.selectWhere fun _ => true).map toCells)), some t)

/-- Spoils the rows of a result in the way of a fault. -/
def spoil (kind : FaultKind) (single : Bool) : Result → Result
  | .touched n => .touched n
  | .rows list =>
    match kind with
    | .noRows => .rows []
    | .twoRows => if single then .rows (list ++ list) else .rows list
    | .unreadable => .rows (list.map fun row => .unreadable :: row.drop 1)
    | _ => .rows list

/-- Whether a statement is answered by exactly one row. -/
def isSingle : Statement → Bool
  | .version | .clock _ => true
  | _ => false

/-- Runs a statement, with the fault that is due for it. -/
def run (s : Server) (st : Statement) : Outcome × Server :=
  let (kind, faults) := takeFault st.place s.faults
  let s := { s with faults }
  let (result, table) := s.execute st
  let done := { s with table }
  match kind with
  | some .error => (.refused, s)
  | some .close => (.closed, s)
  | some .hang => (.silent, s)
  | some .after => (.closed, done)
  | some kind =>
    match result with
    | none => (.refused, s)
    | some r => (.answered (spoil kind (isSingle st) r), done)
  | none =>
    match result with
    | none => (.refused, s)
    | some r => (.answered r, done)

end Server

end Leasehold.Postgres
