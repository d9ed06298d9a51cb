import Leasehold.Manager.Basic

/-! # What a manager does in the background

A manager has a worker and a scheduler while it runs, and a task for every attempt to start and for
every listing that is under way. Each task moves in small steps. A task that has nothing to do
before time passes has no step.
-/

namespace Leasehold

inductive TaskKind where
  | worker
  | scheduler
  | attempt (id : Nat)
  | listing (id : Nat)
  deriving Repr, DecidableEq, Inhabited

namespace Manager

/-- A manager, the store, and what happened. -/
abbrev Stepped := Manager × Backend × List Note

/-- Publishes the flag of an event to the handle. -/
def publish (m : Manager) (note : Note) : Manager :=
  match note with
  | .event _ id acquired => m.updateHandle id fun h => { h with published := acquired }
  | .acknowledged ticket => { m with scheduler := m.scheduler.map (·.acknowledge ticket) }
  | _ => m

/-- Passes on events to handles and acknowledgements to the scheduler. -/
def publishAll (m : Manager) (notes : List Note) : Manager := notes.foldl publish m

def stepWorker (m : Manager) (s : Surroundings) (store : Backend) : Option Stepped :=
  m.worker.bind fun w =>
    (w.step s m.queue store).map fun r =>
      (({ m with worker := some r.worker, queue := r.queue }).publishAll r.notes, r.store, r.notes)

def stepScheduler (m : Manager) (s : Surroundings) (store : Backend) : Option Stepped :=
  m.scheduler.bind fun sc =>
    (sc.step s.now m.settings.interval).map fun (next, ticket) =>
      match ticket with
      | none => ({ m with scheduler := some next }, store, [])
      | some ticket =>
        if m.queueOpen then
          let (m, notes) := ({ m with scheduler := some next }).send (.maintain (some ticket))
          (m, store, notes)
        else
          ({ m with scheduler := none }, store,
            [.log .debug "Maintenance scheduler exiting: work queue closed" []])

/-! ## Starting -/

/-- Removes an attempt; whatever it kept is dropped with it. -/
def dropAttempt (m : Manager) (id : Nat) : Manager :=
  ({ m with attempts := m.attempts.filter fun a => a.id ≠ id }).dropQueue.dropIfUnused

/-- The attempt is over. -/
def endAttempt (m : Manager) (id : Nat) (result : Except LeaseError Unit) : Manager × List Note :=
  (m.dropAttempt id, [.startEnded id result])

/-- The attempt breaks off: it tells nothing and gives nothing back, and the manager is taken to be
    starting ever after. -/
def crashStart (m : Manager) (id : Nat) (overflow : Overflow) : Manager × List Note :=
  (m.dropAttempt id, [.startCrashed id overflow])

def setStage (m : Manager) (id : Nat) (stage : AttemptStage) : Manager :=
  { m with attempts := m.attempts.map fun a => if a.id = id then { a with stage } else a }

/-- A failed attempt gives the queue back, unless the manager has been stopped meanwhile. -/
def failStart (m : Manager) (id : Nat) (e : LeaseError) : Manager × List Note :=
  let m := if m.lifecycle = .starting then { m with lifecycle := .idle } else m
  m.endAttempt id (.error e)

/-- Once the store is ready, starts worker and scheduler, unless the manager has been stopped
    meanwhile. -/
def finishStart (m : Manager) (storeLabel : String) (id : Nat) : Manager × List Note :=
  if m.lifecycle = .starting then
    let started := { m with
      lifecycle := .running, worker := some .fresh, scheduler := some .fresh }
    let (m, notes) := started.endAttempt id (.ok ())
    (m, .log .info "Lease manager started"
      [("owner", m.owner), ("store", storeLabel),
        ("lease_duration_ms", toString m.settings.leaseMillis)] :: notes)
  else m.endAttempt id (.error .stopped)

/-- Takes the queue and, if leases are enabled, asks the store for its time. -/
def enterStart (m : Manager) (s : Surroundings) (storeLabel : String) (id : Nat) :
    Manager × List Note :=
  match m.settings.validate with
  | .error e => m.endAttempt id (.error e)
  | .ok () =>
    match m.lifecycle with
    | .stopped => m.endAttempt id (.error .stopped)
    | .starting => m.endAttempt id (.error .alreadyStarted)
    | .running => m.endAttempt id (.error .alreadyStarted)
    | .idle =>
      let m := { m with lifecycle := .starting }
      if m.settings.enabled then
        let call := Call.place s.link s.now .referenceTime
        (m.setStage id (.comparing call), [.began (.attempt id) .referenceTime])
      else
        let (m, notes) := m.finishStart storeLabel id
        (m, .log .warn
          "Leases are disabled: every lease is granted locally without coordination"
          [("owner", m.owner)] :: notes)

/-- Compares the clocks and goes on to create the table. -/
def compareClocks (m : Manager) (s : Surroundings) (storeLabel : String) (id : Nat)
    (storeTime : Int) : Manager × List Note :=
  match Reading.skewOverflow? s.clock storeTime with
  | some overflow => m.crashStart id overflow
  | none =>
    let skew := Reading.skew s.clock storeTime
    let grace := m.settings.graceMillis
    if grace < skew then
      let (m, notes) := m.failStart id (.clockSkew skew grace)
      (m, .log .error "Local clock is not synchronized with the lease store"
        [("skew_ms", toString skew), ("grace_ms", toString grace), ("store", storeLabel)] :: notes)
    else
      let call := Call.place s.link s.now .ensureSchema
      (m.setStage id (.preparing call),
        [.log .debug ("Clock skew against " ++ storeLabel ++ ": " ++ toString skew ++ "ms") [],
          .began (.attempt id) .ensureSchema])

def stepAttempt (m : Manager) (s : Surroundings) (store : Backend) (id : Nat) : Option Stepped :=
  match m.attempts.find? fun a => a.id = id with
  | none => none
  | some a =>
    match a.stage with
    | .fresh =>
      let (m, notes) := m.enterStart s store.label id
      some (m, store, notes)
    | .comparing call =>
      if call.isDue s.now then
        let (result, next, called) := call.finish (.attempt id) s.trueTime store
        let (m, notes) :=
          match result with
          | .error e => m.failStart id e
          | .ok reply => m.compareClocks s store.label id reply.millis
        some (m, next, called ++ notes)
      else none
    | .preparing call =>
      if call.isDue s.now then
        let (result, next, called) := call.finish (.attempt id) s.trueTime store
        let (m, notes) :=
          match result with
          | .error e => m.failStart id e
          | .ok _ => m.finishStart store.label id
        some (m, next, called ++ notes)
      else none

/-! ## Listing -/

def endListing (m : Manager) (id : Nat) : Manager :=
  ({ m with listings := m.listings.filter fun l => l.id ≠ id }).dropIfUnused

def stepListing (m : Manager) (s : Surroundings) (store : Backend) (id : Nat) : Option Stepped :=
  match m.listings.find? fun l => l.id = id with
  | none => none
  | some l =>
    match l.call with
    | none =>
      let call := Call.place s.link s.now .listAll
      let listings := m.listings.map fun l => if l.id = id then { l with call := some call } else l
      some ({ m with listings }, store, [.began (.listing id) .listAll])
    | some call =>
      if call.isDue s.now then
        let (result, next, called) := call.finish (.listing id) s.trueTime store
        some (m.endListing id, next,
          called ++ [.listingEnded id (result.map Reply.recordList)])
      else none

/-! ## All tasks -/

/-- One step of a task, if it has anything to do. -/
def stepTask (m : Manager) (s : Surroundings) (store : Backend) : TaskKind → Option Stepped
  | .worker => m.stepWorker s store
  | .scheduler => m.stepScheduler s store
  | .attempt id => m.stepAttempt s store id
  | .listing id => m.stepListing s store id

def isAborted (m : Manager) : TaskKind → Bool
  | .worker => m.worker.any (·.aborted)
  | .scheduler => m.scheduler.any (·.aborted)
  | _ => false

/-- Removes a task that has been told to end; the call that it waits for is given up. -/
def reap (m : Manager) : TaskKind → Manager × List Note
  | .worker =>
    let notes := (m.worker.bind (·.call?)).toList.map fun c => Note.cancelled .worker c.request
    (({ m with worker := none }).dropQueue, notes)
  | .scheduler => ({ m with scheduler := none }, [])
  | _ => (m, [])

def tasks (m : Manager) : List TaskKind :=
  (m.attempts.map fun a => .attempt a.id)
    ++ (if m.worker.isSome then [.worker] else [])
    ++ (if m.scheduler.isSome then [.scheduler] else [])
    ++ m.listings.map fun l => .listing l.id

/-- The points of time at which calls end or waiting is over, whatever has passed already. -/
def alarms (m : Manager) : List Nat :=
  let ofCall (c : Call) : List Nat := c.due.toList
  (m.attempts.flatMap fun a => a.call?.toList.flatMap ofCall)
    ++ (m.listings.flatMap fun l => l.call.toList.flatMap ofCall)
    ++ (m.worker.toList.flatMap fun w =>
      (w.call?.toList.flatMap ofCall) ++ w.deadline?.toList)
    ++ (m.scheduler.toList.flatMap fun sc =>
      match sc.pacing with
      | .sleeping wake => [wake]
      | _ => [])

end Manager

end Leasehold
