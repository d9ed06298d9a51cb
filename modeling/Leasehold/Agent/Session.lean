import Leasehold.Agent.Options
import Leasehold.Json.Writer
import Leasehold.Text.Quoted
import Leasehold.World.Snapshot
import Leasehold.World.Trial

/-! # The agent while it holds leases

One manager on the agent's store, the handles of the leases that the agent was given, and the log
lines that tell what happens to them.
-/

namespace Leasehold.Agent

/-- A log line and the part of the program that writes it. -/
structure LogLine where
  part : String
  level : Level
  message : String
  deriving Repr, DecidableEq, Inhabited

def mainPart : String := "lease_agent"
def storePart : String := "lease_agent::store"
def managerPart : String := "lease_manager"

def line (level : Level) (message : String) : LogLine := ⟨mainPart, level, message⟩

/-- Fields behind the message of a log line. -/
def fieldsText (fields : List (String × String)) : String :=
  String.join (fields.map fun f => " " ++ f.1 ++ "=" ++ f.2)

/-- What is written about something that happened. -/
def lineOf? : Note → Option LogLine
  | .event name _ acquired =>
    some (line .info ("Lease " ++ name ++ " is now " ++ (LeaseState.ofAcquired acquired).text))
  | .log level message fields => some ⟨managerPart, level, message ++ fieldsText fields⟩
  | _ => none

structure Session where
  running : Running
  /-- Numbers of the handles, in the order in which the leases were given. -/
  handles : List Nat

namespace Session

/-- Time given to the worker to delete the rows of released leases before it is stopped. -/
def releaseDrain : Duration := Duration.ofMillis 500

def world (s : Session) : World := s.running.world

/-- Takes the lines about what has happened since the last time. -/
def takeLines (s : Session) : List LogLine × Session :=
  let lines := s.world.journal.reverse.filterMap fun e => lineOf? e.note
  (lines, { s with running := { s.running with world := { s.world with journal := [] } } })

def currentHandles (s : Session) : List Handle :=
  match s.world.participants[0]? with
  | none => []
  | some p => s.handles.filterMap p.manager.handle?

/-- Lets time pass up to a point, in milliseconds since the session began. -/
def passUntil (s : Session) (now : Nat) : Session :=
  { s with running := s.running.passUntil now }

def hold (s : Session) (name : String) : Except LeaseError Session :=
  match s.world.create 0 name with
  | (.error e, _) => .error e
  | (.ok h, world) =>
    .ok { s with running := s.running.change fun _ => world, handles := s.handles ++ [h.id] }

def holdAll (s : Session) (names : List String) : Except LeaseError Session :=
  names.foldlM hold s

/-- Owner of every lease in a list of rows, by name, as an object. -/
def ownersText (rows : List Record) : String :=
  String.ofList (Json.object ((sortedRecords rows).map fun r =>
    Json.member r.name (Json.quote r.owner)))

/-- Reports the leases held here and the table as the store tells it. -/
def report (s : Session) : List LogLine × Session :=
  let held := (s.currentHandles.filter Handle.isAcquired).map (·.name)
  let about := fieldsText [("held", Text.quotedList held)]
  let (result, world) := s.world.snapshot 0
  let s := { s with running := s.running.change fun _ => world }
  match result with
  | none => ([], s)
  | some (.ok rows) => ([line .info ("Lease table: " ++ ownersText rows ++ about)], s)
  | some (.error e) =>
    ([line .warn ("Failed to read lease table: " ++ e.message ++ about)], s)

/-- Releases every lease, leaves the worker some time, and stops the manager. -/
def finish (s : Session) : Session :=
  let s := { s with
    running := s.running.change fun w => s.handles.foldl (fun w h => w.release 0 h) w }
  let s := { s with running := s.running.settle }
  let s := s.passUntil (s.world.now + releaseDrain.ceilMillis)
  { s with running := (s.running.change fun w => w.stop 0).settle }

end Session

end Leasehold.Agent
