import Leasehold.Manager.Scheduler
import Leasehold.Manager.Worker
import Leasehold.Text.Quoted

/-! # Lease managers

A manager coordinates the leases of one process: it hands out handles, starts a worker and a
scheduler once its clock has been compared with the store's, and stops them. The operations here
take effect at once; what runs in the background is in `Leasehold.Manager.Tasks`.
-/

namespace Leasehold

/-- One participant's claim on one named lease, as its holder sees it. -/
structure Handle where
  name : String
  id : Nat
  /-- The holder has given the handle up. -/
  released : Bool
  /-- The flag that the worker published last. -/
  published : Bool
  deriving Repr, DecidableEq, Inhabited

namespace Handle

/-- A released handle reads as unacquired at once. -/
def isAcquired (h : Handle) : Bool := !h.released && h.published

def state (h : Handle) : LeaseState := .ofAcquired h.isAcquired

/-- What is shown of a handle. -/
def description (h : Handle) : String :=
  "LeaseHandle \x7b name: " ++ Text.quoted h.name ++ ", id: " ++ toString h.id ++ ", acquired: "
    ++ (if h.isAcquired then "true" else "false") ++ " \x7d"

end Handle

/-- Names with an unreleased handle in this process. -/
structure Registry where
  /-- The handle of each name. -/
  active : List (String × Nat)
  /-- Number of the next handle. -/
  nextId : Nat
  deriving Repr, DecidableEq, Inhabited

/-- Where a manager stands between its creation and its end. -/
inductive Lifecycle where
  /-- Not started; the manager itself keeps the queue. -/
  | idle
  /-- An attempt to start is under way and keeps the queue. -/
  | starting
  | running
  | stopped
  deriving Repr, DecidableEq, Inhabited

/-- How far an attempt to start has come. -/
inductive AttemptStage where
  | fresh
  /-- Has taken the queue and asks the store for its time. -/
  | comparing (call : Call)
  | preparing (call : Call)
  deriving Repr, DecidableEq, Inhabited

structure Attempt where
  id : Nat
  stage : AttemptStage
  deriving Repr, DecidableEq, Inhabited

/-- A request for a listing of the store: not begun, or waiting for the store. -/
structure Listing where
  id : Nat
  call : Option Call
  deriving Repr, DecidableEq, Inhabited

structure Manager where
  /-- Random id that distinguishes this manager from every other participant. -/
  owner : String
  settings : Settings
  registry : Registry
  /-- Every handle that has been handed out, by its number. -/
  handles : List Handle
  /-- Commands on their way to the worker. -/
  queue : List Command
  lifecycle : Lifecycle
  attempts : List Attempt
  listings : List Listing
  worker : Option Worker
  scheduler : Option Scheduler
  /-- Whether the application still refers to the manager. -/
  referenced : Bool
  deriving Repr, DecidableEq, Inhabited

namespace Attempt

def keepsQueue (a : Attempt) : Bool := a.stage ≠ .fresh

def call? (a : Attempt) : Option Call :=
  match a.stage with
  | .fresh => none
  | .comparing c => some c
  | .preparing c => some c

end Attempt

namespace Manager

/-- A manager as it is created. -/
def fresh (owner : String) (settings : Settings) : Manager where
  owner
  settings
  registry := ⟨[], 0⟩
  handles := []
  queue := []
  lifecycle := .idle
  attempts := []
  listings := []
  worker := none
  scheduler := none
  referenced := true

/-- Whether anybody keeps the receiving end of the queue: the idle manager, an attempt to start, or
    the worker. -/
def queueOpen (m : Manager) : Bool :=
  m.lifecycle = .idle || m.attempts.any Attempt.keepsQueue || m.worker.isSome

/-- Loses what is in the queue if nobody keeps its receiving end. -/
def dropQueue (m : Manager) : Manager := if m.queueOpen then m else { m with queue := [] }

/-- Puts a command into the queue; if the queue is closed, the command is lost. -/
def send (m : Manager) (c : Command) : Manager × List Note :=
  if m.queueOpen then ({ m with queue := m.queue ++ [c] }, [.sent c])
  else (m, [.log .debug ("Lease work queue for " ++ m.owner ++ " is closed") []])

def handle? (m : Manager) (id : Nat) : Option Handle := m.handles.find? fun h => h.id = id

def updateHandle (m : Manager) (id : Nat) (f : Handle → Handle) : Manager :=
  { m with handles := m.handles.map fun h => if h.id = id then f h else h }

/-- Starts tracking a name; the new handle is unacquired. -/
def createHandle (m : Manager) (name : String) : Except LeaseError Handle × Manager × List Note :=
  if !m.queueOpen then (.error .stopped, m, [])
  else if (m.registry.active.lookup name).isSome then (.error (.conflict name), m, [])
  else
    let id := m.registry.nextId
    let handle : Handle := ⟨name, id, false, false⟩
    let m := { m with
      registry := ⟨m.registry.active ++ [(name, id)], id + 1⟩
      handles := m.handles ++ [handle] }
    let (m, first) := m.send (.register name id)
    let (m, second) := m.send (.maintain none)
    (.ok handle, m, first ++ second
      ++ [.log .debug ("Created lease handle " ++ toString id ++ " for " ++ name) []])

/-- Frees the name of a handle and tells the worker, unless the name has been freed before. -/
def unregister (m : Manager) (name : String) (id : Nat) : Manager × List Note :=
  if m.registry.active.lookup name = some id then
    let m := { m with registry := { m.registry with
      active := m.registry.active.filter fun e => e.1 ≠ name } }
    m.send (.release name id)
  else (m, [.log .debug ("Lease " ++ name ++ " already released") []])

/-- Gives a handle up. Doing it again changes nothing. Dropping a handle is the same. -/
def releaseHandle (m : Manager) (id : Nat) : Manager × List Note :=
  match m.handle? id with
  | none => (m, [])
  | some h =>
    if h.released then (m, [])
    else (m.updateHandle id fun h => { h with released := true }).unregister h.name id

def abortTasks (m : Manager) : Manager :=
  { m with
    worker := m.worker.map fun w => { w with aborted := true }
    scheduler := m.scheduler.map fun sc => { sc with aborted := true } }

/-- Ends the manager. The worker and the scheduler end as soon as they wait. -/
def stop (m : Manager) : Manager × List Note :=
  let running := m.lifecycle = .running
  let m := { m with lifecycle := .stopped }
  if running then (m.abortTasks.dropQueue, [.log .info "Lease manager stopped" [("owner", m.owner)]])
  else (m.dropQueue, [])

/-- Whether the manager is still in use: by the application, or by something under way. -/
def inUse (m : Manager) : Bool :=
  m.referenced || !m.attempts.isEmpty || !m.listings.isEmpty

/-- Ends the manager quietly once it is not in use any more. -/
def dropIfUnused (m : Manager) : Manager :=
  if m.inUse then m else ({ m with lifecycle := .stopped }).abortTasks.dropQueue

/-- The application lets go of the manager. -/
def abandon (m : Manager) : Manager := ({ m with referenced := false }).dropIfUnused

def beginStart (m : Manager) (id : Nat) : Manager :=
  { m with attempts := m.attempts ++ [⟨id, .fresh⟩] }

def beginListing (m : Manager) (id : Nat) : Manager :=
  { m with listings := m.listings ++ [⟨id, none⟩] }

end Manager

end Leasehold
