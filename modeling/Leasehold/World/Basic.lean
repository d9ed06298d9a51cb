import Leasehold.Manager.Tasks

/-! # Managers that share stores over time

A world holds stores, the participants that use them, a clock in whole milliseconds, and a journal of
everything that happened. A task is picked, takes small steps, and rests when it has nothing to do
before time passes. Several tasks may be moving, their steps in any order. Time passes only while every
task rests.

A call that is given up is adrift: a store outside the process may still carry it out, at any later time
or never. (That a store carries out a call whose answer is lost is another thing: see `Fate.lose`.)

`World.act?` is the transition function: a world is reached from its beginning by a list of actions,
whatever their order.
-/

namespace Leasehold

/-- A manager together with its clock and its way to the store. -/
structure Participant where
  manager : Manager
  /-- Number of the store that the manager uses. -/
  store : Nat
  clock : ClockSetting
  link : Link
  deriving Repr, DecidableEq, Inhabited

structure Task where
  participant : Nat
  kind : TaskKind
  deriving Repr, DecidableEq, Inhabited

structure Entry where
  /-- Simulated time in milliseconds. -/
  time : Nat
  /-- Number of the participant; none if somebody else used a store, or nobody any more. -/
  participant : Option Nat
  note : Note

/-- A call on a store that its caller has given up. -/
structure Stray where
  participant : Nat
  request : Request
  deriving Repr, DecidableEq, Inhabited

structure World where
  /-- Simulated time in milliseconds since the beginning. -/
  now : Nat
  /-- What clocks showed at the beginning. -/
  epoch : Int
  stores : List Backend
  participants : List Participant
  /-- The tasks that have been picked and have not come to rest. -/
  moving : List Task
  /-- The calls that have been given up and that a store may still carry out. -/
  adrift : List Stray
  /-- Number of the next attempt to start or request for a listing. -/
  nextRequest : Nat
  /-- What happened, the latest first. -/
  journal : List Entry
  deriving Inhabited

namespace World

/-- The time that clocks follow. -/
def trueTime (w : World) : Int := Reading.clamp (w.epoch + w.now)

/-- What a participant can see. A manager whose leases are disabled does not use its link. -/
def surroundings (w : World) (p : Participant) : Surroundings where
  now := w.now
  trueTime := w.trueTime
  clock := p.clock.reading w.trueTime
  link := if p.manager.settings.enabled then p.link else .clear
  settings := p.manager.settings
  owner := p.manager.owner

/-- The calls that a participant gives up. -/
def strays (i : Option Nat) (notes : List Note) : List Stray :=
  i.toList.flatMap fun i => (notes.filterMap Note.cancelled?).map (Stray.mk i)

/-- Writes notes of one participant into the journal. -/
def note (w : World) (i : Option Nat) (notes : List Note) : World :=
  { w with
    journal := (notes.map fun n => ⟨w.now, i, n⟩).reverse ++ w.journal
    adrift := w.adrift ++ strays i notes }

/-- What an attempt to start has run into, if the journal tells of one that has crashed. -/
def crash? (w : World) : Option Overflow :=
  w.journal.findSome? fun e =>
    match e.note with
    | .startCrashed _ overflow => some overflow
    | _ => none

def setManager (w : World) (i : Nat) (m : Manager) : World :=
  { w with participants := w.participants.modify i fun p => { p with manager := m } }

def setStore (w : World) (i : Nat) (b : Backend) : World :=
  { w with stores := w.stores.set i b }

/-- Changes a manager and notes what happened. -/
def changeManager (w : World) (i : Nat) (f : Manager → Manager × List Note) : World × List Note :=
  match w.participants[i]? with
  | none => (w, [])
  | some p =>
    let (m, notes) := f p.manager
    ((w.setManager i m).note (some i) notes, notes)

/-! ## Tasks -/

/-- One step of a task, if it has anything to do. -/
def stepTask? (w : World) (t : Task) : Option (World × List Note) := do
  let p ← w.participants[t.participant]?
  let store ← w.stores[p.store]?
  let (m, store, notes) ← p.manager.stepTask (w.surroundings p) store t.kind
  some (((w.setManager t.participant m).setStore p.store store).note (some t.participant) notes,
    notes)

def isAborted (w : World) (t : Task) : Bool :=
  match w.participants[t.participant]? with
  | none => false
  | some p => p.manager.isAborted t.kind

/-- Whether a task has something to do without time passing. -/
def canMove (w : World) (t : Task) : Bool := w.isAborted t || (w.stepTask? t).isSome

def tasks (w : World) : List Task :=
  (w.participants.zipIdx.map fun (p, i) => p.manager.tasks.map (Task.mk i)).flatten

def reap (w : World) (t : Task) : World :=
  if w.isAborted t then (w.changeManager t.participant fun m => m.reap t.kind).1 else w

/-- Picks a task to move. One that has been told to end while it rested ends instead. -/
def pick (w : World) (t : Task) : World :=
  if w.isAborted t then w.reap t else { w with moving := t :: w.moving }

/-- Moves a picked task one step, or lets it rest if it has nothing to do. One that has been told to
    end while it moved ends when it would rest. -/
def proceed (w : World) (t : Task) : World × List Note :=
  match w.stepTask? t with
  | some r => r
  | none => ({ w with moving := w.moving.filter (· ≠ t) }.reap t, [])

/-! ## Time -/

/-- Points of time at which something will happen. -/
def alarms (w : World) : List Nat := w.participants.flatMap fun p => p.manager.alarms

/-- The next point of time at which something will happen. -/
def nextAlarm? (w : World) : Option Nat := (w.alarms.filter (w.now < ·)).min?

/-- Whether nothing can happen without time passing. -/
def isQuiet (w : World) : Bool := w.moving.isEmpty && w.tasks.all fun t => !w.canMove t

def elapse (w : World) (millis : Nat) : World := { w with now := w.now + millis }

/-! ## Actions -/

inductive Action where
  | start (participant : Nat)
  | list (participant : Nat)
  | create (participant : Nat) (name : String)
  | release (participant : Nat) (handle : Nat)
  | stop (participant : Nat)
  | abandon (participant : Nat)
  | setLink (participant : Nat) (link : Link)
  | setClock (participant : Nat) (clock : ClockSetting)
  /-- Somebody who is no manager uses a store. -/
  | use (store : Nat) (request : Request)
  /-- A store carries out a call that has been given up, the one at this place in the list. -/
  | land (place : Nat)
  | pick (task : Task)
  | proceed (task : Task)
  | tick
  deriving Repr, DecidableEq, Inhabited

/-- Begins an attempt to start and tells its number. -/
def start (w : World) (i : Nat) : Nat × World :=
  let id := w.nextRequest
  (id, ({ w with nextRequest := id + 1 }.changeManager i fun m => (m.beginStart id, [])).1)

/-- Begins a request for a listing and tells its number. -/
def list (w : World) (i : Nat) : Nat × World :=
  let id := w.nextRequest
  (id, ({ w with nextRequest := id + 1 }.changeManager i fun m => (m.beginListing id, [])).1)

def create (w : World) (i : Nat) (name : String) : Except LeaseError Handle × World :=
  match w.participants[i]? with
  | none => (.error .stopped, w)
  | some p =>
    let (r, m, notes) := p.manager.createHandle name
    (r, (w.setManager i m).note (some i) notes)

def release (w : World) (i : Nat) (handle : Nat) : World :=
  (w.changeManager i fun m => m.releaseHandle handle).1

def stop (w : World) (i : Nat) : World := (w.changeManager i Manager.stop).1

def abandon (w : World) (i : Nat) : World := (w.changeManager i fun m => (m.abandon, [])).1

def setLink (w : World) (i : Nat) (link : Link) : World :=
  { w with participants := w.participants.modify i fun p => { p with link } }

def setClock (w : World) (i : Nat) (clock : ClockSetting) : World :=
  { w with participants := w.participants.modify i fun p => { p with clock } }

/-- Somebody who is no manager makes a request on a store. -/
def use (w : World) (store : Nat) (request : Request) : World :=
  match w.stores[store]? with
  | none => w
  | some b =>
    let (result, next) := b.perform w.trueTime request
    (w.setStore store next).note none (Call.effectNotes b .outsider request result)

/-- The store of a call that has been given up carries it out, if it is one that does such things. -/
def land? (w : World) (place : Nat) : Option World := do
  let stray ← w.adrift[place]?
  let p ← w.participants[stray.participant]?
  let b ← w.stores[p.store]?
  if b.outlives then
    let (result, next) := b.perform w.trueTime stray.request
    some (({ w with adrift := w.adrift.eraseIdx place }.setStore p.store next).note none
      (Call.effectNotes b (.adrift stray.participant) stray.request result))
  else none

/-- The world after an action, if the action can happen. -/
def act? (w : World) : Action → Option World
  | .start i => some (w.start i).2
  | .list i => some (w.list i).2
  | .create i name => some (w.create i name).2
  | .release i handle => some (w.release i handle)
  | .stop i => some (w.stop i)
  | .abandon i => some (w.abandon i)
  | .setLink i link => some (w.setLink i link)
  | .setClock i clock => some (w.setClock i clock)
  | .use store request => some (w.use store request)
  | .land place => w.land? place
  | .pick t => if !w.moving.contains t && w.tasks.contains t then some (w.pick t) else none
  | .proceed t => if w.moving.contains t then some (w.proceed t).1 else none
  | .tick => if w.isQuiet then some (w.elapse 1) else none

/-- The world after a list of actions, if all of them can happen. -/
def run? (w : World) : List Action → Option World
  | [] => some w
  | a :: as => (w.act? a).bind fun w => w.run? as

/-! ## Beginnings -/

/-- A world with stores and nobody to use them. -/
def initial (epoch : Int) (stores : List Backend) : World where
  now := 0
  epoch
  stores
  participants := []
  moving := []
  adrift := []
  nextRequest := 0
  journal := []

/-- Creates a manager that is given a store. With leases disabled, the manager leaves that store
    alone and grants every lease through a table of its own. -/
def join (w : World) (owner : String) (settings : Settings) (store : Nat) (clock : ClockSetting) :
    World :=
  let manager := Manager.fresh owner settings
  if settings.enabled then
    { w with participants := w.participants ++ [⟨manager, store, clock, .clear⟩] }
  else
    { w with
      participants := w.participants ++ [⟨manager, w.stores.length, clock, .clear⟩]
      stores := w.stores ++ [.freshMemory] }

end World

end Leasehold
