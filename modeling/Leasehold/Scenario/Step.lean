import Leasehold.Store.Direct
import Leasehold.World.Basic

/-! # Scenarios

A script for several managers over simulated time: what is done, by label, and what is answered.
-/

namespace Leasehold.Scenario

/-- One thing that is done. A manager that is not named is the one whose callback does it. -/
inductive Step where
  | start (manager : Option String)
  | allLeases (manager : Option String)
  | advance (millis : Nat)
  /-- Create a handle under a label, with steps to do in its callback when the lease is acquired or
      lost. -/
  | create (manager : Option String) (name : String) (label : Option String)
      (onAcquired onUnacquired : List Step)
  | release (handle : String)
  | managerRelease (manager : Option String) (handle : String)
  | drop (handle : String)
  | stop (manager : Option String)
  | dropManager (manager : Option String)
  | inspect (handle : String)
  | link (manager : Option String) (link : Link)
  | clock (manager : Option String) (setting : ClockSetting)
  | direct (store : String) (call : DirectCall)
  | report (manager : Option String)
  /-- Something that cannot be understood, and what it is. -/
  | unknown (what : String)
  deriving Inhabited

/-- A step of the script, and whether the world is left to run after it. -/
structure Line where
  step : Step
  settle : Bool

inductive Answer where
  | ok
  | pending
  | failed (e : LeaseError)
  /-- A handle as it is shown. -/
  | description (text : String)
  /-- Owner of every lease. -/
  | leases (owners : List (String × String))
  | shown (name : String) (acquired : Bool) (state : LeaseState) (text : String)
  | direct (answer : DirectAnswer)
  /-- A report with the leases held here and the table. -/
  | report (held : String) (table : List (String × String))
  /-- A report without the table. -/
  | reportFailed (held message : String)
  /-- A report that would have had to wait. -/
  | abandoned
  /-- The step makes no sense. -/
  | bad (what : String)

/-- A callback that was made. -/
structure EventLine where
  time : Nat
  manager : String
  name : String
  handle : String
  state : LeaseState

structure LogLine where
  time : Nat
  level : String
  message : String
  fields : List (String × String)

/-- A line of the trace of calls: when, on behalf of whom, and what. -/
structure TraceLine where
  time : Nat
  manager : String
  note : Note

/-- Everything that is told after a step that was left to settle. -/
structure Account where
  /-- Answers of earlier steps that have come by now, by the number of the step. -/
  finished : List (Nat × Answer)
  events : List EventLine
  /-- Each label, what its handle says, and the flag that was published last. -/
  handles : List (String × String × Bool)
  stores : List (String × Except LeaseError (List Record))
  trace : List TraceLine
  logs : List LogLine

/-- What is told after a step. -/
structure Told where
  time : Nat
  answer : Answer
  account : Option Account
  /-- What an attempt to start has run into, if one has crashed. -/
  crash : Option Overflow

structure Setup where
  label : String
  store : String
  settings : Settings
  clock : ClockSetting

structure Script where
  epoch : Int
  stores : List (String × Backend)
  managers : List Setup
  lines : List Line

end Leasehold.Scenario
