import Leasehold.Agent.LogFilter
import Leasehold.Agent.OpenStore
import Leasehold.Agent.Session

/-! # The agent from start to end

The agent opens its store, starts a manager, holds the leases it was given until a signal comes, and
shuts down. Here is what it writes to its log, the error it ends with, and its exit status.
-/

namespace Leasehold.Agent

inductive Signal where
  | interrupt
  | terminate
  deriving Repr, DecidableEq, Inhabited

def Signal.notice : Signal → String
  | interrupt => "Received Ctrl+C, initiating shutdown"
  | terminate => "Received SIGTERM, initiating shutdown"

/-- What can be seen of a run of the agent. -/
structure Transcript where
  exit : Nat
  log : List LogLine
  error : Option String
  deriving Repr, DecidableEq, Inhabited

/-- What is logged first: the settings. -/
def greeting (o : Options) : List LogLine :=
  let location := (o.storeUrl.map StoreUrl.parse).bind Except.toOption
  [line .info "Starting lease-agent"]
    ++ (location.toList.map fun u => line .info ("  Store: " ++ u.shown))
    ++ [line .info ("  Lease duration: " ++ o.settings.leaseDuration.text),
      line .info ("  Leases enabled: " ++ if o.leasesEnabled then "true" else "false")]

/-- Starts the manager on an open store and creates the handles: what is logged, and the session or
    the error that ends the agent. -/
def enter (o : Options) (store : Backend) (owner : String) (time : Int) :
    List LogLine × Except LeaseError Session :=
  let (result, running) := Trial.begin owner o.settings store time {}
  let (lines, s) := (Session.mk running []).takeLines
  let log := line .info ("  Owner id: " ++ owner) :: lines
  match result with
  | .error e =>
    (log ++ [line .error
      ("Failed to start lease manager on " ++ store.label ++ " store: " ++ e.message)], .error e)
  | .ok () =>
    match s.holdAll o.leases with
    | .error e => (log, .error e)
    | .ok s => (log ++ [line .info ("Holding " ++ toString o.leases.length ++ " lease(s)")], .ok s)

/-- Everything up to the point where the agent waits for a signal. The owner id is given, and the
    time at which it happens. -/
def startUp (o : Options) (owner : String) (time : Int) (files : FileSystem) :
    List LogLine × Except LeaseError Session :=
  let log := greeting o ++
    if o.leasesEnabled then []
    else [⟨storePart, .debug, "Leases are disabled, not opening a store"⟩]
  match o.openStore files with
  | .error e => (log, .error e)
  | .ok store =>
    let (lines, s) := enter o store owner time
    (log ++ lines, s)

/-- What is logged from the signal to the end. -/
def shutDown (s : Session) (signal : Signal) : List LogLine :=
  [line .info signal.notice] ++ s.finish.takeLines.1
    ++ [line .info "Lease agent shutdown complete"]

def errorText (e : LeaseError) : String := "Error: " ++ e.message

/-- A run with these options, in which the signal comes at once. -/
def run (o : Options) (owner : String) (time : Int) (signal : Signal)
    (files : FileSystem := .usual) : Transcript :=
  match startUp o owner time files with
  | (log, .error e) => ⟨1, log, some (errorText e)⟩
  | (log, .ok s) => ⟨0, log ++ shutDown s signal, none⟩

/-- Exit status of a run that does not get as far as its options. -/
def usageExit : UsageError → Nat
  | .displayHelp => 0
  | _ => 2

/-- A run from its command line. Only lines that the filter admits are written. -/
def runCommand (arguments : List String) (env : List (String × String)) (filter : LogFilter)
    (owner : String) (time : Int) (signal : Signal) (files : FileSystem := .usual) : Transcript :=
  match Options.parse arguments env with
  | .error e => ⟨usageExit e, [], none⟩
  | .ok o =>
    let t := run o owner time signal files
    { t with log := t.log.filter fun l => filter.admits l.part l.level }

end Leasehold.Agent
