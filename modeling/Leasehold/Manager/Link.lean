import Leasehold.Clock
import Leasehold.Manager.Note
import Leasehold.Store.Backend

/-! # Calls on the store

A manager reaches its store through a link that may be slow or broken. The condition of the link is
looked at when a call begins; it settles when the call will end, and how.
-/

namespace Leasehold

/-- Condition of the way to the store. -/
structure Link where
  /-- Operations that fail without effect. -/
  failing : List Operation := []
  /-- Operations that take effect and fail all the same. -/
  failingAfter : List Operation := []
  /-- Operations that never end. -/
  hanging : List Operation := []
  /-- Milliseconds that single operations take. -/
  delays : List (Operation × Nat) := []
  /-- Milliseconds that all other operations take. -/
  otherDelay : Nat := 0
  /-- What failures tell. -/
  message : String := "connection refused"
  /-- A time at which the store's clock stands still. -/
  storeTime : Option Int := none
  /-- Difference of the store's clock from the time that it follows. -/
  storeOffset : Int := 0
  deriving Repr, DecidableEq, Inhabited

namespace Link

/-- A link on which every call is answered at once. -/
def clear : Link := {}

def delay (l : Link) (op : Operation) : Nat := (l.delays.lookup op).getD l.otherDelay

/-- What the store's clock shows through this link. -/
def storeClock (l : Link) (trueTime : Int) : Int :=
  Reading.add (l.storeTime.getD trueTime) l.storeOffset

end Link

inductive Fate where
  /-- It is done and answered. -/
  | answer
  /-- It fails without effect. -/
  | refuse
  /-- It takes effect and fails all the same. -/
  | lose
  deriving Repr, DecidableEq, Inhabited

/-- A call that has begun. -/
structure Call where
  request : Request
  fate : Fate
  /-- When it ends, in milliseconds of simulated time; `none` if it never does. -/
  due : Option Nat
  /-- The link as it was when the call began. -/
  link : Link
  deriving Repr, DecidableEq, Inhabited

namespace Call

def place (link : Link) (now : Nat) (request : Request) : Call :=
  let op := request.operation
  { request
    fate := if link.failing.contains op then .refuse
      else if link.failingAfter.contains op then .lose else .answer
    due := if link.hanging.contains op then none else some (now + link.delay op)
    link }

def isDue (c : Call) (now : Nat) : Bool := c.due.any (· ≤ now)

/-- A table inside the process tells about the claims that it is asked for. -/
def claimLog (store : Backend) (request : Request) : List Note :=
  match store, request with
  | .memory _, .claimAbsent names owner _ =>
    [.log .debug ("Attempted " ++ toString names.length ++ " claims for " ++ owner) []]
  | _, _ => []

/-- What is noted when a store carries out a request with this result. -/
def effectNotes (store : Backend) (caller : Caller) (request : Request) :
    Except LeaseError Reply → List Note
  | .ok _ => .effect caller request :: claimLog store request
  | .error _ => []

/-- Ends the call: what the caller learns, what has become of the store, and what happened. -/
def finish (c : Call) (caller : Caller) (trueTime : Int) (store : Backend) :
    Except LeaseError Reply × Backend × List Note :=
  match c.fate with
  | .refuse =>
    let e := LeaseError.store c.link.message
    (.error e, store, [.failed caller c.request e])
  | .answer =>
    let (result, next) := store.perform (c.link.storeClock trueTime) c.request
    let closing :=
      match result with
      | .ok reply => Note.answered caller c.request reply
      | .error e => .failed caller c.request e
    (result, next, effectNotes store caller c.request result ++ [closing])
  | .lose =>
    let (result, next) := store.perform (c.link.storeClock trueTime) c.request
    let e :=
      match result with
      | .ok _ => LeaseError.store c.link.message
      | .error e => e
    (.error e, next, effectNotes store caller c.request result ++ [.failed caller c.request e])

end Call

end Leasehold
