import Leasehold.Clock
import Leasehold.Store.Request

/-! # What happens in a manager

Commands travel through a manager's work queue; everything that can be observed of a manager, and
everything that a statement about its runs has to speak of, is written down as a note.
-/

namespace Leasehold

/-- Unit of work in a manager's queue. -/
inductive Command where
  | register (name : String) (id : Nat)
  /-- Forget a handle and free its lease. -/
  | release (name : String) (id : Nat)
  /-- Run a maintenance cycle, and acknowledge it if a ticket was given. -/
  | maintain (ticket : Option Nat)
  deriving Repr, DecidableEq, Inhabited

inductive Caller where
  | worker
  /-- An attempt to start, by its number. -/
  | attempt (id : Nat)
  /-- A request for a listing, by its number. -/
  | listing (id : Nat)
  /-- Nobody any more: the call has been given up by this participant. -/
  | adrift (participant : Nat)
  /-- Somebody who is no manager. -/
  | outsider
  deriving Repr, DecidableEq, Inhabited

inductive Level where
  | debug
  | info
  | warn
  | error
  deriving Repr, DecidableEq, Inhabited

def Level.text : Level → String
  | debug => "DEBUG"
  | info => "INFO"
  | warn => "WARN"
  | error => "ERROR"

inductive Note where
  | began (caller : Caller) (request : Request)
  /-- The store carries out a request, whether or not the caller learns of it. -/
  | effect (caller : Caller) (request : Request)
  | answered (caller : Caller) (request : Request) (reply : Reply)
  | failed (caller : Caller) (request : Request) (error : LeaseError)
  /-- A call on the store is given up without an answer. -/
  | cancelled (caller : Caller) (request : Request)
  /-- The callback of a handle is told that its lease was acquired or lost. -/
  | event (name : String) (id : Nat) (acquired : Bool)
  | sent (command : Command)
  /-- The worker takes a command from the queue and applies it. -/
  | applied (command : Command)
  | cycleBegan
  | cycleEnded (succeeded : Bool)
  | acknowledged (ticket : Nat)
  | startEnded (id : Nat) (result : Except LeaseError Unit)
  /-- An attempt to start comes to nothing: whoever made it is gone. -/
  | startCrashed (id : Nat) (overflow : Overflow)
  | listingEnded (id : Nat) (result : Except LeaseError (List Record))
  | log (level : Level) (message : String) (fields : List (String × String))

namespace Note

/-- The handle and its new flag, if the note is an event. -/
def event? : Note → Option (Nat × Bool)
  | event _ id acquired => some (id, acquired)
  | _ => none

/-- The request that is given up, if one is. -/
def cancelled? : Note → Option Request
  | cancelled _ request => some request
  | _ => none

/-- The ticket that is acknowledged, if one is. -/
def ticket? : Note → Option Nat
  | acknowledged ticket => some ticket
  | _ => none

end Note

end Leasehold
