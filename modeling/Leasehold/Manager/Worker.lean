import Leasehold.Keyed
import Leasehold.Manager.Link
import Leasehold.Settings

/-! # The worker

The only part of a manager that changes rows. It keeps one slot for every handle that it tracks,
takes commands from the queue, and runs maintenance cycles: collect expired rows, refresh its own,
claim free names, then bring every slot in line with what the store says.

The worker moves in small steps. Between two steps it may wait for the store; everything that it
does without waiting in between is one step. So a step may make a whole batch of callbacks, when many
slots change at once; they are made in the order of their notes, and nobody else changes the worker
meanwhile.
-/

namespace Leasehold

/-- Local state of one tracked handle. -/
structure Slot where
  id : Nat
  acquired : Bool
  deriving Repr, DecidableEq, Inhabited

/-- The slots of a worker by lease name. -/
abbrev Slots := List (String × Slot)

namespace Slots

def find? (slots : Slots) (name : String) : Option Slot := slots.lookup name

def erase (slots : Slots) (name : String) : Slots := slots.filter fun s => s.1 ≠ name

/-- Puts a slot in the place of the one that the name may have. -/
def insert (slots : Slots) (name : String) (slot : Slot) : Slots :=
  slots.erase name ++ [(name, slot)]

def holding (slots : Slots) : Bool := slots.any fun s => s.2.acquired

/-- Names whose lease is not held. -/
def wanted (slots : Slots) : List String :=
  (slots.filter fun s => !s.2.acquired).map (·.1)

/-- Gives every slot the flag that `f` tells for its name. -/
def assign (slots : Slots) (f : String → Bool) : Slots :=
  slots.map fun s => (s.1, { s.2 with acquired := f s.1 })

/-- Slots whose flag differs from what `f` tells for their name. -/
def changing (slots : Slots) (f : String → Bool) : Slots :=
  slots.filter fun s => s.2.acquired ≠ f s.1

theorem find?_erase_self (slots : Slots) (name : String) : (slots.erase name).find? name = none :=
  Keyed.lookup_erase_self slots name

theorem find?_erase_of_ne (slots : Slots) {name other : String} (h : other ≠ name) :
    (slots.erase name).find? other = slots.find? other :=
  Keyed.lookup_erase_of_ne slots h

theorem find?_insert_self (slots : Slots) (name : String) (slot : Slot) :
    (slots.insert name slot).find? name = some slot := by
  have gone : List.lookup name (slots.erase name) = none := find?_erase_self slots name
  simp [insert, find?, Keyed.lookup_concat, gone]

theorem find?_insert_of_ne (slots : Slots) {name other : String} (slot : Slot) (h : other ≠ name) :
    (slots.insert name slot).find? other = slots.find? other := by
  rw [← find?_erase_of_ne slots h]
  simp [insert, find?, Keyed.lookup_concat, h]

theorem find?_assign (slots : Slots) (f : String → Bool) (name : String) :
    (slots.assign f).find? name
      = (slots.find? name).map fun slot => { slot with acquired := f name } :=
  Keyed.lookup_map_value slots (fun n slot => Slot.mk slot.id (f n)) name

end Slots

/-- The commands taken since the worker last waited for one. -/
structure Batch where
  /-- Tickets to acknowledge. -/
  tickets : List Nat
  /-- Whether a cycle has been asked for. -/
  wanted : Bool
  deriving Repr, DecidableEq, Inhabited

def Batch.empty : Batch := ⟨[], false⟩

/-- How far a maintenance cycle has come: what it is asking the store. -/
inductive Stage where
  | collecting
  | refreshing
  | claiming
  | selecting
  /-- Deleting a row that nobody here asked for; the names of more such rows follow. -/
  | purging (name : String) (rest : List String)
  deriving Repr, DecidableEq, Inhabited

/-- A maintenance cycle that waits for the store. -/
structure Cycle where
  stage : Stage
  call : Call
  /-- The expiration that this cycle writes. -/
  expiration : Int
  /-- How long the cycle may take. -/
  limit : Duration
  deadline : Nat
  tickets : List Nat
  deriving Repr, DecidableEq, Inhabited

/-- A release that waits for the store. -/
structure Releasing where
  name : String
  call : Call
  /-- How long the store may take. -/
  limit : Duration
  deadline : Nat
  batch : Batch
  deriving Repr, DecidableEq, Inhabited

inductive Activity where
  | waiting
  /-- Applies what else is in the queue before a cycle. -/
  | draining (batch : Batch)
  /-- Has dropped the slot of a released handle and is about to tell the store. -/
  | parting (name : String) (batch : Batch)
  | releasing (r : Releasing)
  | cycling (c : Cycle)
  deriving Repr, DecidableEq, Inhabited

structure Worker where
  slots : Slots
  /-- Expiration written by the last cycle that learned what it owns. -/
  confirmedUntil : Option Int
  activity : Activity
  /-- The worker has been told to end and does so as soon as it waits. -/
  aborted : Bool
  deriving Repr, DecidableEq, Inhabited

/-- What a task of a manager can see at one moment. -/
structure Surroundings where
  /-- Simulated time in milliseconds. -/
  now : Nat
  /-- The time that clocks follow. -/
  trueTime : Int
  clock : Int
  link : Link
  settings : Settings
  owner : String
  deriving Repr, Inhabited

/-- What a step of a worker leaves behind. -/
structure WorkerStep where
  worker : Worker
  queue : List Command
  store : Backend
  notes : List Note

namespace Worker

def fresh : Worker := ⟨[], none, .waiting, false⟩

def call? (w : Worker) : Option Call :=
  match w.activity with
  | .releasing r => some r.call
  | .cycling c => some c.call
  | _ => none

/-- When the worker will give up waiting. -/
def deadline? (w : Worker) : Option Nat :=
  match w.activity with
  | .releasing r => some r.deadline
  | .cycling c => some c.deadline
  | _ => none

/-- Longest time that a store call may take before held leases are at risk: up to the point where
    peers may start collecting rows of this manager; one lease duration if nothing is held. -/
def allowance (w : Worker) (s : Surroundings) : Duration :=
  match w.slots.holding, w.confirmedUntil with
  | true, some confirmed =>
    Duration.ofMillis
      (Reading.sub (Reading.sub confirmed s.settings.graceMillis) s.clock).toNat
  | _, _ => s.settings.leaseDuration

/-- The events of the slots that change, in order. -/
def eventsOf (changed : Slots) (acquired : Bool) : List Note :=
  changed.map fun c => .event c.1 c.2.id acquired

/-- Whether held leases have to be given up after a failure: the point up to which they are
    confirmed, less the grace window, has been reached. -/
def mustGiveUp (w : Worker) (s : Surroundings) : Bool :=
  match w.confirmedUntil with
  | none => false
  | some confirmed => Reading.sub confirmed s.settings.graceMillis ≤ s.clock

/-- After a failure, gives up the leases whose rows a peer may already have collected. -/
def giveUp (w : Worker) (s : Surroundings) : Worker × List Note :=
  if w.mustGiveUp s then
    let lost := w.slots.changing fun _ => false
    ({ w with slots := w.slots.assign fun _ => false },
      eventsOf lost false ++ lost.map fun c =>
        .log .warn "Lost lease: store unreachable past its expiration"
          [("lease", c.1), ("owner", s.owner)])
  else (w, [])

/-- Brings every slot in line with the names that the store says are owned: the worker, and what
    happened. -/
def reconcile (w : Worker) (s : Surroundings) (owned : List String) (expiration : Int) :
    Worker × List Note :=
  let isOwned := fun name => owned.contains name
  let changed := w.slots.changing isOwned
  let gained := changed.filter fun c => !c.2.acquired
  let lost := changed.filter fun c => c.2.acquired
  let tell (what : String) (c : String × Slot) : Note :=
    .log .info what [("lease", c.1), ("owner", s.owner)]
  ({ w with slots := w.slots.assign isOwned, confirmedUntil := some expiration },
    eventsOf gained true ++ eventsOf lost false
      ++ gained.map (tell "Acquired lease") ++ lost.map (tell "Lost lease"))

/-- Owned names without a slot, each of them once. -/
def orphans (w : Worker) (owned : List String) : List String :=
  (owned.filter fun name => (w.slots.find? name).isNone).eraseDups

def ask (s : Surroundings) (request : Request) : Call × Note :=
  (Call.place s.link s.now request, .began .worker request)

/-! ## Applying commands -/

/-- What to do after a command has been applied. -/
def afterCommand (b : Batch) : Activity := if b.wanted then .draining b else .waiting

def register (w : Worker) (name : String) (id : Nat) (b : Batch) : Worker × List Note :=
  ({ w with slots := w.slots.insert name ⟨id, false⟩, activity := afterCommand b },
    if (w.slots.find? name).isSome then
      [.log .warn ("Replaced a stale slot for lease " ++ name) []]
    else [])

/-- Drops the slot of a released handle. Local observers learn about it before the store does. -/
def release (w : Worker) (name : String) (id : Nat) (b : Batch) : Worker × List Note :=
  match w.slots.find? name with
  | none => ({ w with activity := afterCommand b }, [])
  | some slot =>
    if slot.id = id then
      ({ w with slots := w.slots.erase name, activity := .parting name b },
        if slot.acquired then [.event name slot.id false] else [])
    else ({ w with activity := afterCommand b }, [])

def apply (w : Worker) (c : Command) (b : Batch) : Worker × List Note :=
  match c with
  | .register name id => w.register name id b
  | .release name id => w.release name id b
  | .maintain ticket =>
    ({ w with activity := .draining ⟨b.tickets ++ ticket.toList, true⟩ }, [])

/-! ## Releasing -/

/-- Asks the store to delete the row of a released lease. -/
def beginRelease (w : Worker) (s : Surroundings) (name : String) (b : Batch) :
    Worker × List Note :=
  let limit := w.allowance s
  let (call, note) := ask s (.deleteOwned name s.owner)
  ({ w with activity := .releasing ⟨name, call, limit, s.now + limit.ceilMillis, b⟩ }, [note])

/-- What is told about the outcome of a release. -/
def releaseLog (s : Surroundings) (name : String) : Except LeaseError Reply → Note
  | .ok reply =>
    if reply.wasDeleted then .log .info "Released lease" [("lease", name), ("owner", s.owner)]
    else .log .debug ("Lease " ++ name ++ " was not held by " ++ s.owner ++ " at release") []
  | .error e =>
    .log .warn "Failed to delete released lease; it will expire instead"
      [("lease", name), ("error", e.message)]

/-- Goes on after the store has dealt with a release. -/
def endRelease (w : Worker) (s : Surroundings) (r : Releasing)
    (result : Except LeaseError Reply) : Worker × List Note :=
  ({ w with activity := afterCommand r.batch }, [releaseLog s r.name result])

def abandonRelease (w : Worker) (s : Surroundings) (r : Releasing) : Worker × List Note :=
  let (w, lost) := w.giveUp s
  ({ w with activity := afterCommand r.batch },
    [.cancelled .worker r.call.request,
      .log .warn ("Lease store did not answer the release within " ++ r.limit.text
        ++ "; it will expire instead") [("lease", r.name)]] ++ lost)

/-! ## Maintenance cycles -/

/-- Begins a cycle once the queue has been drained. -/
def beginCycle (w : Worker) (s : Surroundings) (tickets : List Nat) : Worker × List Note :=
  let limit := w.allowance s
  let expiration := Reading.add s.clock s.settings.leaseMillis
  let (call, note) := ask s (.deleteExpired s.clock)
  ({ w with activity :=
      .cycling ⟨.collecting, call, expiration, limit, s.now + limit.ceilMillis, tickets⟩ },
    [.cycleBegan, note])

def acknowledge (tickets : List Nat) : List Note := tickets.map .acknowledged

/-- Ends a cycle in which everything went well. -/
def endCycle (w : Worker) (c : Cycle) : Worker × List Note :=
  ({ w with activity := .waiting }, .cycleEnded true :: acknowledge c.tickets)

/-- Ends a cycle that failed: it is acknowledged like any other. -/
def failCycle (w : Worker) (s : Surroundings) (storeLabel : String) (c : Cycle) (e : LeaseError) :
    Worker × List Note :=
  let (w, lost) := w.giveUp s
  ({ w with activity := .waiting },
    .log .warn "Lease maintenance cycle failed"
      [("owner", s.owner), ("store", storeLabel), ("error", e.message)]
      :: lost ++ .cycleEnded false :: acknowledge c.tickets)

/-- Asks the store the next question of a cycle. -/
def askNext (w : Worker) (s : Surroundings) (c : Cycle) (stage : Stage) (request : Request) :
    Worker × List Note :=
  let (call, note) := ask s request
  ({ w with activity := .cycling { c with stage, call } }, [note])

/-- Goes on to delete the next row that nobody here asked for. -/
def purge (w : Worker) (s : Surroundings) (c : Cycle) : List String → Worker × List Note
  | [] => w.endCycle c
  | name :: rest =>
    let (w, notes) := w.askNext s c (.purging name rest) (.deleteOwned name s.owner)
    (w, .log .warn ("Found a lease that we did not request. Deleting: " ++ name) [] :: notes)

/-- Goes on with a cycle after the store has answered its question. -/
def resume (w : Worker) (s : Surroundings) (c : Cycle) (reply : Reply) : Worker × List Note :=
  match c.stage with
  | .collecting =>
    let (w, notes) := w.askNext s c .refreshing (.refreshOwned s.owner c.expiration)
    (w, if 0 < reply.rowCount then
        .log .debug ("Deleted " ++ toString reply.rowCount ++ " expired leases") [] :: notes
      else notes)
  | .refreshing =>
    let wanted := w.slots.wanted
    if wanted.isEmpty then w.askNext s c .selecting (.selectOwned s.owner)
    else w.askNext s c .claiming (.claimAbsent wanted s.owner c.expiration)
  | .claiming => w.askNext s c .selecting (.selectOwned s.owner)
  | .selecting =>
    let owned := reply.nameList
    let orphans := w.orphans owned
    let (w, changes) := w.reconcile s owned c.expiration
    let (w, notes) := w.purge s c orphans
    (w, changes ++ notes)
  | .purging _ rest => w.purge s c rest

/-- What is told about a cycle that took too long. -/
def overdue (c : Cycle) : LeaseError :=
  .store ("maintenance cycle did not finish within " ++ c.limit.text)

/-! ## Steps -/

/-- One step of a worker, if it has anything to do. An answer from the store goes before the end of
    the time that was allowed for it. -/
def step (w : Worker) (s : Surroundings) (queue : List Command) (store : Backend) :
    Option WorkerStep :=
  match w.activity with
  | .waiting =>
    match queue with
    | [] => none
    | c :: queue =>
      let (w, notes) := w.apply c .empty
      some ⟨w, queue, store, .applied c :: notes⟩
  | .draining b =>
    match queue with
    | c :: queue =>
      let (w, notes) := w.apply c b
      some ⟨w, queue, store, .applied c :: notes⟩
    | [] =>
      let (w, notes) := w.beginCycle s b.tickets
      some ⟨w, [], store, notes⟩
  | .parting name b =>
    let (w, notes) := w.beginRelease s name b
    some ⟨w, queue, store, notes⟩
  | .releasing r =>
    if r.call.isDue s.now then
      let (result, next, called) := r.call.finish .worker s.trueTime store
      let (w, notes) := w.endRelease s r result
      some ⟨w, queue, next, called ++ notes⟩
    else if r.deadline ≤ s.now then
      let (w, notes) := w.abandonRelease s r
      some ⟨w, queue, store, notes⟩
    else none
  | .cycling c =>
    if c.call.isDue s.now then
      let (result, next, called) := c.call.finish .worker s.trueTime store
      match result with
      | .ok reply =>
        let (w, notes) := w.resume s c reply
        some ⟨w, queue, next, called ++ notes⟩
      | .error e =>
        let (w, notes) := w.failCycle s store.label c e
        some ⟨w, queue, next, called ++ notes⟩
    else if c.deadline ≤ s.now then
      let (w, notes) := w.failCycle s store.label c (overdue c)
      some ⟨w, queue, store, .cancelled .worker c.call.request :: notes⟩
    else none

end Worker

end Leasehold
