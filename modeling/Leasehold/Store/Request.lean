import Leasehold.Error
import Leasehold.Record

/-! # What a store can be asked

The operations on the shared table as data: what is asked and what is answered.
-/

namespace Leasehold

/-- The operations that a manager uses. -/
inductive Operation where
  | referenceTime
  | ensureSchema
  | deleteExpired
  | refreshOwned
  | claimAbsent
  | selectOwned
  | deleteOwned
  | listAll
  | dropSchema
  deriving Repr, DecidableEq, Inhabited

def Operation.name : Operation → String
  | referenceTime => "reference_time"
  | ensureSchema => "ensure_schema"
  | deleteExpired => "delete_expired"
  | refreshOwned => "refresh_owned"
  | claimAbsent => "claim_absent"
  | selectOwned => "select_owned"
  | deleteOwned => "delete_owned"
  | listAll => "list_all"
  | dropSchema => "drop_schema"

inductive Request where
  /-- What time the store has. -/
  | referenceTime
  | ensureSchema
  | dropSchema
  /-- Delete the rows of any owner whose expiration lies before `now`. -/
  | deleteExpired (now : Int)
  /-- Move the expiration of every row of an owner. -/
  | refreshOwned (owner : String) (expiration : Int)
  /-- Insert a row for each name that has none. -/
  | claimAbsent (names : List String) (owner : String) (expiration : Int)
  /-- Names of the rows of an owner. -/
  | selectOwned (owner : String)
  /-- Delete the row of a name if this owner has it. -/
  | deleteOwned (name owner : String)
  | listAll
  deriving Repr, DecidableEq, Inhabited

def Request.operation : Request → Operation
  | referenceTime => .referenceTime
  | ensureSchema => .ensureSchema
  | dropSchema => .dropSchema
  | deleteExpired _ => .deleteExpired
  | refreshOwned _ _ => .refreshOwned
  | claimAbsent _ _ _ => .claimAbsent
  | selectOwned _ => .selectOwned
  | deleteOwned _ _ => .deleteOwned
  | listAll => .listAll

inductive Reply where
  | done
  /-- A time, in milliseconds since the epoch. -/
  | time (millis : Int)
  /-- How many rows were touched. -/
  | count (rows : Nat)
  | names (list : List String)
  | deleted (any : Bool)
  | records (rows : List Record)
  deriving Repr, DecidableEq, Inhabited

namespace Reply

def nameList : Reply → List String
  | names list => list
  | _ => []

def recordList : Reply → List Record
  | records rows => rows
  | _ => []

def millis : Reply → Int
  | time t => t
  | _ => 0

def rowCount : Reply → Nat
  | count n => n
  | _ => 0

def wasDeleted : Reply → Bool
  | deleted b => b
  | _ => false

end Reply

/-- Names in the order of their bytes. -/
def sortedNames (names : List String) : List String := names.mergeSort (fun a b => a ≤ b)

/-- Rows in the order of the bytes of their names. -/
def sortedRecords (rows : List Record) : List Record :=
  rows.mergeSort (fun a b => a.name ≤ b.name)

end Leasehold
