import Leasehold.Proofs.ManagerMoves
import Leasehold.World.Basic

/-! # What can happen in a world

An action moves one manager, passes a quiet millisecond, lets somebody who is no manager act, has a
store carry out a call that was given up, or changes nothing that matters. `World.Change` says which of
these an action is; statements about all runs are proved by what a change preserves.
-/

namespace Leasehold.World

/-- The store that a participant uses. -/
def storeOf (w : World) (p : Participant) : Backend := (w.stores[p.store]?).getD default

/-- The lines of a journal for what happens to a participant, the latest first. -/
def lines (w : World) (i : Nat) (notes : List Note) : List Entry :=
  (notes.map fun n => ⟨w.now, some i, n⟩).reverse

/-- Two worlds that differ in the picked tasks and the numbering of requests at most. -/
structure SameMatter (w w' : World) : Prop where
  now : w'.now = w.now
  epoch : w'.epoch = w.epoch
  participants : w'.participants = w.participants
  stores : w'.stores = w.stores
  adrift : w'.adrift = w.adrift
  journal : w'.journal = w.journal

/-- One manager has moved. -/
structure Moved (w : World) (i : Nat) (p : Participant) (m : Manager) (b : Backend)
    (notes : List Note) (w' : World) : Prop where
  present : w.participants[i]? = some p
  move : p.manager.Move (w.surroundings p) (w.storeOf p) m b notes
  now : w'.now = w.now
  epoch : w'.epoch = w.epoch
  participants : w'.participants = w.participants.set i { p with manager := m }
  stores : w'.stores = w.stores.set p.store b
  adrift : w'.adrift = w.adrift ++ strays (some i) notes
  journal : w'.journal = w.lines i notes ++ w.journal

/-- The world after a store has carried out a call that was given up. -/
def landed (w : World) (place : Nat) (stray : Stray) (store : Nat) (b : Backend) : World :=
  ({ w with adrift := w.adrift.eraseIdx place }.setStore store
    (b.perform w.trueTime stray.request).2).note none
    (Call.effectNotes b (.adrift stray.participant) stray.request (b.perform w.trueTime stray.request).1)

/-- A call that was given up is carried out by the store of the participant who made it. -/
structure Landed (w : World) (place : Nat) (stray : Stray) (p : Participant) (b : Backend)
    (w' : World) : Prop where
  adrift : w.adrift[place]? = some stray
  present : w.participants[stray.participant]? = some p
  found : w.stores[p.store]? = some b
  outlives : b.outlives = true
  eq : w' = w.landed place stray p.store b

/-- What an action makes of a world. -/
inductive Change (w : World) : Action → World → Prop where
  | move {a i p m b notes w'} (moved : w.Moved i p m b notes w') : Change w a w'
  | rest {a w'} (same : w.SameMatter w') : Change w a w'
  | tick (quiet : w.isQuiet = true) : Change w .tick (w.elapse 1)
  | setLink (i : Nat) (link : Link) : Change w (.setLink i link) (w.setLink i link)
  | setClock (i : Nat) (clock : ClockSetting) : Change w (.setClock i clock) (w.setClock i clock)
  | use (store : Nat) (request : Request) : Change w (.use store request) (w.use store request)
  | land {place stray p b w'} (landed : w.Landed place stray p b w') : Change w (.land place) w'

theorem set_storeOf (w : World) (p : Participant) : w.stores.set p.store (w.storeOf p) = w.stores := by
  unfold storeOf
  cases found : w.stores[p.store]? with
  | none => exact List.set_eq_of_length_le (by simpa using found)
  | some b =>
    obtain ⟨inside, rfl⟩ := List.getElem?_eq_some_iff.mp found
    simp

theorem setManager_participants {w : World} {i : Nat} {p : Participant}
    (present : w.participants[i]? = some p) (m : Manager) :
    (w.setManager i m).participants = w.participants.set i { p with manager := m } := by
  obtain ⟨inside, rfl⟩ := List.getElem?_eq_some_iff.mp present
  simp [setManager, List.modify_eq_set_getElem?, inside]

theorem setManager_same {w : World} {i : Nat} {p : Participant} (present : w.participants[i]? = some p) :
    w.setManager i p.manager = w := by
  have participants : (w.setManager i p.manager).participants = w.participants := by
    rw [setManager_participants present]
    obtain ⟨inside, rfl⟩ := List.getElem?_eq_some_iff.mp present
    exact List.set_getElem_self inside
  change { w with participants := (w.setManager i p.manager).participants } = w
  rw [participants]

@[simp] theorem note_nil (w : World) (i : Option Nat) : w.note i [] = w := by
  cases i <;> simp [note, strays]

theorem changeManager_cases {w : World} {a : Action} {i : Nat} {f : Manager → Manager × List Note}
    (w₀ : World) (same : w₀.SameMatter w)
    (move : ∀ p, w₀.participants[i]? = some p →
      p.manager.Move (w₀.surroundings p) (w₀.storeOf p) (f p.manager).1 (w₀.storeOf p)
        (f p.manager).2) :
    w₀.Change a (w.changeManager i f).1 := by
  unfold changeManager
  cases present : w.participants[i]? with
  | none => exact .rest same
  | some p =>
    have present₀ : w₀.participants[i]? = some p := by rw [← same.participants]; exact present
    refine .move (i := i) (p := p) ⟨present₀, move p present₀, ?_, ?_, ?_, ?_, ?_, ?_⟩
    · exact same.now
    · exact same.epoch
    · rw [← same.participants]
      exact setManager_participants present _
    · rw [set_storeOf]
      exact same.stores
    · simp only [note, setManager, same.adrift]
    · simp only [note, setManager, lines, same.now, same.journal]

theorem moved_of_stepTask? {w w' : World} {t : Task} {notes : List Note}
    (h : w.stepTask? t = some (w', notes)) :
    ∃ p m b, w.Moved t.participant p m b notes w' ∧ p.store < w.stores.length
      ∧ p.manager.stepTask (w.surroundings p) (w.storeOf p) t.kind = some (m, b, notes) := by
  unfold stepTask? at h
  obtain ⟨p, present, h⟩ := Option.bind_eq_some_iff.mp h
  obtain ⟨store, found, h⟩ := Option.bind_eq_some_iff.mp h
  obtain ⟨⟨m, b, ns⟩, step, h⟩ := Option.bind_eq_some_iff.mp h
  cases h
  have same : w.storeOf p = store := by simp [storeOf, found]
  rw [← same] at step
  refine ⟨p, m, b, ⟨present, Manager.move_of_stepTask step, rfl, rfl, ?_, rfl, rfl, rfl⟩,
    (List.getElem?_eq_some_iff.mp found).1, step⟩
  exact setManager_participants present m

theorem change_of_reap {w w₀ : World} {a : Action} (t : Task) (same : w₀.SameMatter w) :
    w₀.Change a (w.reap t) := by
  unfold reap
  by_cases aborted : w.isAborted t = true
  · rw [if_pos aborted]
    refine changeManager_cases w₀ same fun p present => Manager.move_of_reap ?_
    have present' : w.participants[t.participant]? = some p := by rw [same.participants, present]
    simpa [isAborted, present'] using aborted
  · rw [if_neg aborted]
    exact .rest same

theorem SameMatter.refl (w : World) : w.SameMatter w := ⟨rfl, rfl, rfl, rfl, rfl, rfl⟩

/-- The worlds that actions lead to, with what has to be so for them to happen. -/
inductive Occurs (w : World) : Action → World → Prop where
  | start (i : Nat) :
      Occurs w (.start i) (({ w with nextRequest := w.nextRequest + 1 } : World).changeManager i
        fun m => (m.beginStart w.nextRequest, [])).1
  | list (i : Nat) :
      Occurs w (.list i) (({ w with nextRequest := w.nextRequest + 1 } : World).changeManager i
        fun m => (m.beginListing w.nextRequest, [])).1
  | create (i : Nat) (name : String) :
      Occurs w (.create i name) (w.changeManager i fun m => (m.createHandle name).2).1
  | release (i : Nat) (handle : Nat) :
      Occurs w (.release i handle) (w.changeManager i fun m => m.releaseHandle handle).1
  | stop (i : Nat) : Occurs w (.stop i) (w.changeManager i Manager.stop).1
  | abandon (i : Nat) : Occurs w (.abandon i) (w.changeManager i fun m => (m.abandon, [])).1
  | setLink (i : Nat) (link : Link) : Occurs w (.setLink i link) (w.setLink i link)
  | setClock (i : Nat) (clock : ClockSetting) : Occurs w (.setClock i clock) (w.setClock i clock)
  | use (store : Nat) (request : Request) : Occurs w (.use store request) (w.use store request)
  | land {place stray p b w'} (landed : w.Landed place stray p b w') : Occurs w (.land place) w'
  /-- A task that has been told to end is picked and ends. -/
  | reap {t : Task} (aborted : w.isAborted t = true) : Occurs w (.pick t) (w.reap t)
  | pick {t : Task} (able : t ∈ w.tasks) (alive : w.isAborted t = false) :
      Occurs w (.pick t) { w with moving := t :: w.moving }
  | step {t : Task} {next : World} {notes : List Note} (moving : t ∈ w.moving)
      (step : w.stepTask? t = some (next, notes)) : Occurs w (.proceed t) next
  /-- The picked task has nothing to do. -/
  | rest {t : Task} (moving : t ∈ w.moving) (rests : w.stepTask? t = none) :
      Occurs w (.proceed t) (({ w with moving := w.moving.filter (· ≠ t) } : World).reap t)
  | tick (quiet : w.isQuiet = true) : Occurs w .tick (w.elapse 1)

theorem create_eq (w : World) (i : Nat) (name : String) :
    (w.create i name).2 = (w.changeManager i fun m => (m.createHandle name).2).1 := by
  unfold create changeManager
  split <;> rfl

theorem landed_of_land? {w w' : World} {place : Nat} (h : w.land? place = some w') :
    ∃ stray p b, w.Landed place stray p b w' := by
  unfold land? at h
  obtain ⟨stray, adrift, h⟩ := Option.bind_eq_some_iff.mp h
  obtain ⟨p, present, h⟩ := Option.bind_eq_some_iff.mp h
  obtain ⟨b, found, h⟩ := Option.bind_eq_some_iff.mp h
  obtain ⟨outlives, same⟩ := Option.ite_none_right_eq_some.mp h
  cases same
  exact ⟨stray, p, b, adrift, present, found, outlives, rfl⟩

theorem occurs_of_act? {w w' : World} {a : Action} (h : w.act? a = some w') : w.Occurs a w' := by
  cases a with
  | start i =>
    cases h
    exact .start i
  | list i =>
    cases h
    exact .list i
  | create i name =>
    cases h
    rw [create_eq]
    exact .create i name
  | release i handle =>
    cases h
    exact .release i handle
  | stop i =>
    cases h
    exact .stop i
  | abandon i =>
    cases h
    exact .abandon i
  | setLink i link =>
    cases h
    exact .setLink i link
  | setClock i clock =>
    cases h
    exact .setClock i clock
  | use store request =>
    cases h
    exact .use store request
  | land place =>
    obtain ⟨stray, p, b, landed⟩ := landed_of_land? h
    exact .land landed
  | pick t =>
    obtain ⟨able, same⟩ := Option.ite_none_right_eq_some.mp h
    cases same
    simp only [Bool.and_eq_true, List.contains_iff_mem] at able
    cases aborted : w.isAborted t with
    | true =>
      rw [pick, if_pos aborted]
      exact .reap aborted
    | false =>
      rw [pick, if_neg (by simp [aborted])]
      exact .pick able.2 aborted
  | proceed t =>
    obtain ⟨able, same⟩ := Option.ite_none_right_eq_some.mp h
    cases same
    have moving : t ∈ w.moving := List.contains_iff_mem.mp able
    cases step : w.stepTask? t with
    | none =>
      simp only [proceed, step]
      exact .rest moving step
    | some r =>
      simp only [proceed, step]
      exact .step moving step
  | tick =>
    obtain ⟨quiet, same⟩ := Option.ite_none_right_eq_some.mp h
    cases same
    exact .tick quiet

/-- Every action is a change. -/
theorem change_of_act? {w w' : World} {a : Action} (h : w.act? a = some w') : w.Change a w' := by
  cases occurs_of_act? h with
  | start i => exact changeManager_cases w ⟨rfl, rfl, rfl, rfl, rfl, rfl⟩ fun p _ => .beginStart w.nextRequest
  | list i => exact changeManager_cases w ⟨rfl, rfl, rfl, rfl, rfl, rfl⟩ fun p _ => .beginListing w.nextRequest
  | create i name => exact changeManager_cases w (.refl w) fun p _ => .create name
  | release i handle => exact changeManager_cases w (.refl w) fun p _ => .release handle
  | stop i => exact changeManager_cases w (.refl w) fun p _ => .stop
  | abandon i => exact changeManager_cases w (.refl w) fun p _ => .abandon
  | setLink i link => exact .setLink i link
  | setClock i clock => exact .setClock i clock
  | use store request => exact .use store request
  | land landed => exact .land landed
  | reap aborted => exact change_of_reap _ (.refl w)
  | pick able alive => exact .rest ⟨rfl, rfl, rfl, rfl, rfl, rfl⟩
  | step moving step =>
    obtain ⟨p, m, b, moved, _, _⟩ := moved_of_stepTask? step
    exact .move moved
  | rest moving rests => exact change_of_reap _ ⟨rfl, rfl, rfl, rfl, rfl, rfl⟩
  | tick quiet => exact .tick quiet

/-- What every allowed action preserves holds at the end of every run of allowed actions. -/
theorem run?_preserves {P : World → Prop} {allowed : Action → Prop}
    (step : ∀ w a w', P w → allowed a → w.Change a w' → P w') {w w' : World} {actions : List Action}
    (calm : ∀ a ∈ actions, allowed a) (run : w.run? actions = some w') (start : P w) : P w' := by
  induction actions generalizing w with
  | nil =>
    cases run
    exact start
  | cons a actions ih =>
    obtain ⟨next, act, run⟩ := Option.bind_eq_some_iff.mp run
    exact ih (fun b member => calm b (List.mem_cons_of_mem _ member)) run
      (step w a next start (calm a List.mem_cons_self) (change_of_act? act))

theorem run?_singleton {w w' : World} {a : Action} (act : w.act? a = some w') :
    w.run? [a] = some w' := by
  simp [run?, act]

theorem run?_append (w : World) (first last : List Action) :
    w.run? (first ++ last) = (w.run? first).bind fun v => v.run? last := by
  induction first generalizing w with
  | nil => rfl
  | cons a first ih =>
    change ((w.act? a).bind fun v => v.run? (first ++ last)) = ((w.act? a).bind _).bind _
    rw [Option.bind_assoc]
    exact congrArg _ (funext ih)

theorem mem_tasks_iff {w : World} {i : Nat} {p : Participant} (present : w.participants[i]? = some p)
    {kind : TaskKind} : Task.mk i kind ∈ w.tasks ↔ kind ∈ p.manager.tasks := by
  simp only [tasks, List.mem_flatten, List.mem_map]
  constructor
  · rintro ⟨_, ⟨⟨q, j⟩, there, rfl⟩, member⟩
    obtain ⟨kind', inside, same⟩ := List.mem_map.mp member
    cases same
    rw [List.mem_zipIdx_iff_getElem?, present] at there
    cases there
    exact inside
  · intro member
    exact ⟨_, ⟨(p, i), List.mem_zipIdx_iff_getElem?.mpr present, rfl⟩, List.mem_map_of_mem member⟩

theorem present_of_mem_tasks {w : World} {t : Task} (member : t ∈ w.tasks) :
    ∃ p, w.participants[t.participant]? = some p := by
  obtain ⟨_, there, inside⟩ := List.mem_flatten.mp member
  obtain ⟨⟨p, j⟩, found, rfl⟩ := List.mem_map.mp there
  obtain ⟨kind, _, rfl⟩ := List.mem_map.mp inside
  exact ⟨p, List.mem_zipIdx_iff_getElem?.mp found⟩

/-- A task is picked and moves so many times. -/
def turn (participant : Nat) (kind : TaskKind) (moves : Nat) : List Action :=
  .pick ⟨participant, kind⟩ :: List.replicate moves (.proceed ⟨participant, kind⟩)

/-! ## Reachable worlds -/

/-- Worlds in which managers have been created and nothing has happened yet. -/
inductive Begins : World → Prop where
  | initial (epoch : Int) (stores : List Backend) : Begins (World.initial epoch stores)
  | join {w : World} (begins : w.Begins) (owner : String) (settings : Settings) (store : Nat)
      (clock : ClockSetting) : Begins (w.join owner settings store clock)

/-- The worlds that any actions lead to, whatever the stores held at the beginning. -/
def Reachable (w : World) : Prop :=
  ∃ (start : World) (actions : List Action), start.Begins ∧ start.run? actions = some w

theorem Reachable.run {w w' : World} (reachable : w.Reachable) {actions : List Action}
    (run : w.run? actions = some w') : w'.Reachable := by
  obtain ⟨start, before, begins, run'⟩ := reachable
  refine ⟨start, before ++ actions, begins, ?_⟩
  rw [run?_append, run', Option.bind_some, run]

theorem Reachable.act {w w' : World} (reachable : w.Reachable) {a : Action}
    (act : w.act? a = some w') : w'.Reachable := reachable.run (run?_singleton act)

theorem Begins.manager_fresh {w : World} (begins : w.Begins) {p : Participant}
    (member : p ∈ w.participants) : ∃ owner settings, p.manager = .fresh owner settings := by
  induction begins with
  | initial epoch stores => simp [World.initial] at member
  | @join w begins owner settings store clock ih =>
    unfold World.join at member
    split at member
    · rcases List.mem_append.mp member with old | new
      · exact ih old
      · rw [List.mem_singleton.mp new]
        exact ⟨owner, settings, rfl⟩
    · rcases List.mem_append.mp member with old | new
      · exact ih old
      · rw [List.mem_singleton.mp new]
        exact ⟨owner, settings, rfl⟩

theorem setLink_participant {w : World} {i j : Nat} {link : Link} {p' : Participant}
    (there : (w.setLink i link).participants[j]? = some p') :
    ∃ p link', w.participants[j]? = some p ∧ p' = { p with link := link' } := by
  simp only [setLink, List.getElem?_modify] at there
  obtain ⟨p, before, rfl⟩ := Option.map_eq_some_iff.mp there
  by_cases own : i = j
  · exact ⟨p, link, before, if_pos own⟩
  · exact ⟨p, p.link, before, if_neg own⟩

theorem setClock_participant {w : World} {i j : Nat} {clock : ClockSetting} {p' : Participant}
    (there : (w.setClock i clock).participants[j]? = some p') :
    ∃ p clock', w.participants[j]? = some p ∧ p' = { p with clock := clock' }
      ∧ (clock' = p.clock ∨ i = j) := by
  simp only [setClock, List.getElem?_modify] at there
  obtain ⟨p, before, rfl⟩ := Option.map_eq_some_iff.mp there
  by_cases own : i = j
  · exact ⟨p, clock, before, if_pos own, .inr own⟩
  · exact ⟨p, p.clock, before, if_neg own, .inl rfl⟩

theorem participants_use (w : World) (store : Nat) (request : Request) :
    (w.use store request).participants = w.participants := by
  unfold World.use
  split <;> rfl

theorem Landed.participants {w w' : World} {place : Nat} {stray : Stray} {p : Participant} {b : Backend}
    (landed : w.Landed place stray p b w') : w'.participants = w.participants := by
  rw [landed.eq]
  rfl

theorem Change.manager_cases {w w' : World} {a : Action} (change : w.Change a w') {p' : Participant}
    (member : p' ∈ w'.participants) :
    (∃ p ∈ w.participants, p'.manager = p.manager)
      ∨ ∃ p ∈ w.participants, ∃ s store b notes, p.manager.Move s store p'.manager b notes := by
  cases change with
  | @move _ i p m b notes _ moved =>
    rw [moved.participants] at member
    rcases List.mem_or_eq_of_mem_set member with old | rfl
    · exact .inl ⟨p', old, rfl⟩
    · exact .inr ⟨p, List.mem_of_getElem? moved.present, _, _, b, notes, moved.move⟩
  | rest same => exact .inl ⟨p', same.participants ▸ member, rfl⟩
  | tick quiet => exact .inl ⟨p', member, rfl⟩
  | setLink i link =>
    obtain ⟨j, present⟩ := List.mem_iff_getElem?.mp member
    obtain ⟨p, _, found, rfl⟩ := setLink_participant present
    exact .inl ⟨p, List.mem_of_getElem? found, rfl⟩
  | setClock i clock =>
    obtain ⟨j, present⟩ := List.mem_iff_getElem?.mp member
    obtain ⟨p, _, found, rfl, _⟩ := setClock_participant present
    exact .inl ⟨p, List.mem_of_getElem? found, rfl⟩
  | use store request => exact .inl ⟨p', w.participants_use store request ▸ member, rfl⟩
  | land landed => exact .inl ⟨p', landed.participants ▸ member, rfl⟩

/-- What a new manager has and every move of a manager keeps is true of every manager that can be
    reached. -/
theorem Reachable.manager {P : Manager → Prop} (fresh : ∀ owner settings, P (.fresh owner settings))
    (move : ∀ m s store m' b notes, P m → Manager.Move s store m m' b notes → P m')
    {w : World} (reachable : w.Reachable) {p : Participant} (member : p ∈ w.participants) :
    P p.manager := by
  obtain ⟨start, actions, begins, run⟩ := reachable
  have step : ∀ (w : World) (a : Action) (w' : World), (∀ p ∈ w.participants, P p.manager) → True →
      w.Change a w' → ∀ p ∈ w'.participants, P p.manager := by
    intro w a w' before _ change p' member'
    rcases change.manager_cases member' with ⟨p, inside, same⟩ | ⟨p, inside, s, store, b, notes, h⟩
    · exact same ▸ before p inside
    · exact move _ s store _ b notes (before p inside) h
  refine run?_preserves step (fun _ _ => trivial) run (fun p inside => ?_) p member
  obtain ⟨owner, settings, eq⟩ := begins.manager_fresh inside
  exact eq ▸ fresh owner settings

end Leasehold.World
