import Leasehold.Scenario.Step
import Leasehold.World.Settle
import Leasehold.World.Snapshot

/-! # Playing a scenario

The stage keeps what the script speaks of by label: managers, handles with their callbacks, stores,
and answers that are still to come.
-/

namespace Leasehold.Scenario

/-- A handle as the script knows it. -/
structure HandleRef where
  participant : Nat
  id : Nat
  dropped : Bool

/-- What the script has a handle's callback do. -/
structure Callback where
  participant : Nat
  id : Nat
  manager : String
  label : String
  onAcquired : List Step
  onUnacquired : List Step

structure Stage where
  running : Running
  /-- Managers that the script still refers to. -/
  managers : List (String × Nat)
  /-- All managers, by their number. -/
  labels : List String
  stores : List (String × Nat)
  handles : List (String × HandleRef)
  callbacks : List Callback
  /-- Requests that have not been answered, with the number of the step that made them. -/
  pending : List (Nat × Nat)

namespace Stage

def world (s : Stage) : World := s.running.world

def change (s : Stage) (f : World → World) : Stage := { s with running := s.running.change f }

/-- The number of a manager; the second label stands in for a missing one. -/
def manager? (s : Stage) (label : Option String) (own : Option String) : Option (String × Nat) :=
  match label <|> own with
  | none => none
  | some label => (s.managers.lookup label).map fun i => (label, i)

/-- A handle that has not been dropped. -/
def handle? (s : Stage) (label : String) : Option HandleRef :=
  (s.handles.lookup label).bind fun h => if h.dropped then none else some h

/-- The handle itself. -/
def resolve (s : Stage) (h : HandleRef) : Option Handle :=
  (s.world.participants[h.participant]?).bind fun p => p.manager.handle? h.id

def setHandle (s : Stage) (label : String) (h : HandleRef) : Stage :=
  { s with handles :=
      if (s.handles.lookup label).isSome then
        s.handles.map fun e => if e.1 = label then (label, h) else e
      else s.handles ++ [(label, h)] }

def noManager : Answer := .bad "no such manager"
def noHandle : Answer := .bad "no such handle"

/-- Creates a handle under a label. The handle that the label stood for is dropped afterwards. -/
def create (s : Stage) (manager : String) (i : Nat) (name label : String)
    (onAcquired onUnacquired : List Step) : Stage × Answer :=
  let (result, world) := s.world.create i name
  let s := s.change fun _ => world
  match result with
  | .error e => (s, .failed e)
  | .ok h =>
    let old := s.handle? label
    let s := s.setHandle label ⟨i, h.id, false⟩
    let s := { s with
      callbacks := ⟨i, h.id, manager, label, onAcquired, onUnacquired⟩ :: s.callbacks }
    let s :=
      match old with
      | none => s
      | some old => s.change fun w => w.release old.participant old.id
    (s, .description h.description)

/-- Owner of every lease in a list of rows. -/
def owners (rows : List Record) : List (String × String) := rows.map fun r => (r.name, r.owner)

/-- Names of the acquired handles of a manager that have not been dropped, in the order of their
    labels. -/
def held (s : Stage) (i : Nat) : List String :=
  let own := s.handles.filter fun e => e.2.participant = i && !e.2.dropped
  let sorted := own.mergeSort fun a b => a.1 ≤ b.1
  sorted.filterMap fun e => (s.resolve e.2).bind fun h => if h.isAcquired then some h.name else none

/-- Takes log lines out of the journal. -/
def withoutLogs (w : World) : World :=
  { w with journal := w.journal.filter fun e =>
      match e.note with
      | .log _ _ _ => false
      | _ => true }

/-- Reports what a manager holds and the table as it sees it, if that takes no time. What was
    logged before is left out of the account. -/
def report (s : Stage) (i : Nat) : Stage × Answer :=
  let held := Text.quotedList (s.held i)
  let (result, world) := (withoutLogs s.world).snapshot i
  match result with
  | none => (s.change fun _ => world, .abandoned)
  | some (.ok rows) => (s.change fun _ => withoutLogs world, .report held (owners rows))
  | some (.error e) =>
    (s.change fun _ => withoutLogs world,
      .reportFailed held ("Failed to read lease table: " ++ e.message))

/-- Uses a store directly. -/
def direct (s : Stage) (store : String) (call : DirectCall) : Stage × Answer :=
  match s.stores.lookup store with
  | none => (s, .bad "no such store")
  | some i =>
    match s.world.stores[i]? with
    | none => (s, .bad "no such store")
    | some b =>
      let (answer, next) := b.direct s.world.trueTime call
      let change (w : World) : World :=
        match call with
        | .request r => w.use i r
        | _ => w.setStore i next
      (s.change change, .direct answer)

/-- Does one step, without letting the world run. `own` is the manager whose callback does it, and
    `number` the number of the step. -/
def perform (s : Stage) (own : Option String) (number : Nat) : Step → Stage × Answer
  | .start m =>
    match s.manager? m own with
    | none => (s, noManager)
    | some (_, i) =>
      let (id, world) := s.world.start i
      ({ s.change fun _ => world with pending := s.pending ++ [(id, number)] }, .pending)
  | .allLeases m =>
    match s.manager? m own with
    | none => (s, noManager)
    | some (_, i) =>
      let (id, world) := s.world.list i
      ({ s.change fun _ => world with pending := s.pending ++ [(id, number)] }, .pending)
  | .advance _ => (s, .ok)
  | .create m name label onAcquired onUnacquired =>
    match s.manager? m own with
    | none => (s, noManager)
    | some (m, i) =>
      s.create m i name (label.getD (m ++ "/" ++ name)) onAcquired onUnacquired
  | .release h =>
    match s.handle? h with
    | none => (s, noHandle)
    | some h => (s.change fun w => w.release h.participant h.id, .ok)
  | .managerRelease m h =>
    match s.manager? m own with
    | none => (s, noManager)
    | some _ =>
      match s.handle? h with
      | none => (s, noHandle)
      | some h => (s.change fun w => w.release h.participant h.id, .ok)
  | .drop label =>
    match s.handle? label with
    | none => (s, noHandle)
    | some h =>
      ((s.setHandle label { h with dropped := true }).change
        fun w => w.release h.participant h.id, .ok)
  | .stop m =>
    match s.manager? m own with
    | none => (s, noManager)
    | some (_, i) => (s.change fun w => w.stop i, .ok)
  | .dropManager m =>
    match s.manager? m own with
    | none => (s, noManager)
    | some (m, i) =>
      ({ s with managers := s.managers.filter fun e => e.1 ≠ m }.change fun w => w.abandon i, .ok)
  | .inspect label =>
    match (s.handle? label).bind s.resolve with
    | none => (s, noHandle)
    | some h => (s, .shown h.name h.isAcquired h.state h.description)
  | .link m link =>
    match s.manager? m own with
    | none => (s, noManager)
    | some (_, i) => (s.change fun w => w.setLink i link, .ok)
  | .clock m setting =>
    match s.manager? m own with
    | none => (s, noManager)
    | some (_, i) => (s.change fun w => w.setClock i setting, .ok)
  | .direct store call => s.direct store call
  | .report m =>
    match s.manager? m own with
    | none => (s, noManager)
    | some (_, i) => s.report i
  | .unknown what => (s, .bad what)

/-- Does the steps of a callback; their answers are lost. -/
def performAll (s : Stage) (own : String) : List Step → Stage
  | [] => s
  | st :: rest => ((s.perform (some own) 0 st).1).performAll own rest

/-- Makes the callbacks for what has happened to a participant. -/
def callBack (i : Nat) (notes : List Note) (s : Stage) : Stage :=
  notes.foldl (fun s note =>
    match note with
    | .event _ id acquired =>
      match s.callbacks.find? fun c => c.participant = i && c.id = id with
      | none => s
      | some c => s.performAll c.manager (if acquired then c.onAcquired else c.onUnacquired)
    | _ => s) s

/-- Lets the world run until nothing can happen without time passing. -/
def settle (s : Stage) : Stage :=
  Running.settleWith Stage.running (fun r s => { s with running := r }) callBack Running.patience s

/-- Lets time pass; everything that is due happens. -/
def pass (s : Stage) (millis : Nat) : Stage :=
  Running.passWith Stage.running (fun r s => { s with running := r }) callBack
    (s.world.now + millis) (millis + 1) s

/-! ## Accounts -/

def label (s : Stage) (i : Nat) : String := s.labels[i]?.getD ""

/-- The answer that a note gives to a pending request. -/
def answerOf? : Note → Option (Nat × Answer)
  | .startEnded id (.ok ()) => some (id, .ok)
  | .startEnded id (.error e) => some (id, .failed e)
  | .listingEnded id (.ok rows) => some (id, .leases (owners rows))
  | .listingEnded id (.error e) => some (id, .failed e)
  | _ => none

/-- Answers that have come, by the number of their step. -/
def answered (s : Stage) : List (Nat × Answer) :=
  let answers := s.world.journal.reverse.filterMap fun e => answerOf? e.note
  let found := answers.filterMap fun (id, a) => (s.pending.lookup id).map fun n => (n, a)
  found.mergeSort fun a b => a.1 ≤ b.1

def eventLine? (s : Stage) (e : Entry) : Option EventLine :=
  match e.participant, e.note with
  | some i, .event name id acquired =>
    let handle := (s.callbacks.find? fun c => c.participant = i && c.id = id).map (·.label)
    some ⟨e.time, s.label i, name, handle.getD "", .ofAcquired acquired⟩
  | _, _ => none

def logLine? (e : Entry) : Option LogLine :=
  match e.note with
  | .log level message fields =>
    some ⟨e.time, level.text, message, fields.mergeSort fun a b => a.1 ≤ b.1⟩
  | _ => none

/-- Calls of managers that reach their store through a link. -/
def traceLine? (s : Stage) (e : Entry) : Option TraceLine :=
  let isCall :=
    match e.note with
    | .began _ _ | .answered _ _ _ | .failed _ _ _ | .cancelled _ _ => true
    | _ => false
  e.participant.bind fun i =>
    if isCall && (s.world.participants[i]?).any (·.manager.settings.enabled) then
      some ⟨e.time, s.label i, e.note⟩
    else none

/-- Whether a list of texts comes before another one or is the same. -/
def textsLe : List String → List String → Bool
  | [], _ => true
  | _ :: _, [] => false
  | a :: as, b :: bs => if a = b then textsLe as bs else a ≤ b

/-- The order of events: by time, manager and lease name. -/
def eventLe (a b : EventLine) : Bool :=
  if a.time = b.time then textsLe [a.manager, a.name] [b.manager, b.name] else a.time ≤ b.time

/-- The order of log lines: by time, level, message and fields. -/
def logLe (a b : LogLine) : Bool :=
  let texts (l : LogLine) := l.level :: l.message :: l.fields.flatMap fun f => [f.1, f.2]
  if a.time = b.time then textsLe (texts a) (texts b) else a.time ≤ b.time

/-- What a handle says, and the flag that was published last. -/
def handleLine (s : Stage) (e : String × HandleRef) : String × String × Bool :=
  let published := ((s.resolve e.2).map (·.published)).getD false
  let state := ((s.resolve e.2).map fun h => h.state.text).getD ""
  (e.1, if e.2.dropped then "dropped" else state, published)

/-- Everything that there is to tell since the last account. -/
def account (s : Stage) (finished : List (Nat × Answer)) : Account :=
  let journal := s.world.journal.reverse
  { finished
    events := (journal.filterMap s.eventLine?).mergeSort eventLe
    handles := s.handles.map s.handleLine
    stores := s.stores.map fun e =>
      (e.1, ((s.world.stores[e.2]?).map Backend.listing).getD (.ok []))
    trace := journal.filterMap s.traceLine?
    logs := (journal.filterMap logLine?).mergeSort logLe }

/-- Starts a new account. -/
def turnPage (s : Stage) (finished : List (Nat × Answer)) : Stage :=
  { s with
    running := { s.running with world := { s.running.world with journal := [] } }
    pending := s.pending.filter fun e => !(finished.any fun f => f.1 = e.2) }

/-- Plays one line of the script. -/
def play (s : Stage) (number : Nat) (l : Line) : Stage × Told :=
  let (s, answer) := s.perform none number l.step
  if l.settle then
    let s :=
      match l.step with
      | .advance millis => s.settle.pass millis
      | _ => s.settle
    let finished := s.answered
    let answer := ((finished.lookup number)).getD answer
    let told := s.account (finished.filter fun f => f.1 ≠ number)
    (s.turnPage finished, ⟨s.world.now, answer, some told, s.world.crash?⟩)
  else (s, ⟨s.world.now, answer, none, none⟩)

def playAll (s : Stage) (number : Nat) : List Line → List Told
  | [] => []
  | l :: rest =>
    let (s, told) := s.play number l
    told :: s.playAll (number + 1) rest

/-- The number of a store by name, if the script has it. -/
def storeNumber? (stores : List (String × Backend)) (name : String) : Option Nat :=
  stores.findIdx? fun e => e.1 = name

/-- Sets up a manager, whose owner id is made of its label. -/
def setUp (stores : List (String × Backend)) (w : World) (m : Setup) : Option World :=
  (storeNumber? stores m.store).map fun store =>
    w.join ("@" ++ m.label) m.settings store m.clock

end Stage

/-- Plays a script; none if a manager uses a store that there is not. -/
def Script.play (script : Script) : Option (List Told) := do
  let world ← script.managers.foldlM (Stage.setUp script.stores)
    (World.initial script.epoch (script.stores.map (·.2)))
  let labels := script.managers.map (·.label)
  let stage : Stage :=
    { running := .ofWorld world
      managers := labels.zipIdx
      labels
      stores := (script.stores.map (·.1)).zipIdx
      handles := []
      callbacks := []
      pending := [] }
  some (stage.playAll 0 script.lines)

end Leasehold.Scenario
