import Leasehold.Proofs.Exclusion
import Leasehold.Proofs.Pacing

/-! # Managers on a reachable store

Managers with one lease duration share a store that answers at once, and their clocks are off by no
more than the grace window. `Fleet.Calm` is kept by everything that can happen to them. From it: no
clock passes the point up to which a lease is confirmed, so a lease that is held has its row.
-/

namespace Leasehold

/-- Enabled, with a lease duration of whole milliseconds. -/
def Settings.ofMillis (millis : Nat) : Settings := ⟨.ofMillis millis, true⟩

namespace Settings

theorem leaseMillis_ofMillis {millis : Nat} (fits : Reading.InRange millis) :
    (ofMillis millis).leaseMillis = millis := by
  have whole : (Duration.ofMillis millis).wholeMillis = millis := by
    simp only [Duration.ofMillis, Duration.wholeMillis, Duration.nanosPerMilli]
    omega
  rw [leaseMillis, cappedMillis, ofMillis, whole, Reading.clamp_eq_self fits]

theorem graceMillis_ofMillis_le (millis : Nat) :
    (ofMillis millis).graceMillis ≤ (millis / 4 : Nat) := by
  have whole : (ofMillis millis).grace.wholeMillis = millis / 4 := by
    simp only [grace, ofMillis, Duration.part, Duration.ofMillis, Duration.wholeMillis,
      Duration.nanosPerMilli]
    omega
  rw [graceMillis, cappedMillis, whole, Reading.clamp]
  unfold Reading.min
  split
  · omega
  · split <;> omega

theorem ceilMillis_interval_ofMillis (millis : Nat) :
    (ofMillis millis).interval.ceilMillis = (millis + 1) / 2 := by
  simp only [interval, ofMillis, Duration.part, Duration.ofMillis, Duration.ceilMillis,
    Duration.nanosPerMilli]
  omega

end Settings

namespace Worker

variable {w : Worker} {s : Surroundings} {queue : List Command} {store : Backend} {r : WorkerStep}

theorem Move.isReady (move : w.Move s queue store r) (sound : w.Sound s)
    (ready : store.isReady = true) : r.store.isReady = true := by
  have ended {call : Call} (called : w.call? = some call) :
      (call.finish .worker s.trueTime store).2.1.isReady = true := by
    refine Call.isReady_finish call _ _ ready fun drops => ?_
    have made := sound.madeBy called
    rw [drops] at made
    exact made
  cases move with
  | take | beginCycle | beginRelease | abandonRelease | overrun => exact ready
  | endRelease releasing due => exact ended (by simp [call?, releasing])
  | resume cycling due answered => exact ended (by simp [call?, cycling])
  | failCycle cycling due failed => exact ended (by simp [call?, cycling])

end Worker

namespace Manager

variable {m m' : Manager} {s s' : Surroundings} {store b : Backend} {notes : List Note}

theorem Modest.keeps_table (h : m.Modest) {call : Call} (awaits : m.Awaits call) :
    call.request ≠ .dropSchema := by
  intro drops
  have cleared := h.effect awaits fun _ => some ⟨"", 0⟩
  rw [drops] at cleared
  cases congrFun cleared ""

theorem Move.isReady (move : m.Move s store m' b notes) (modest : m.Modest)
    (sound : ∀ w, m.worker = some w → w.Sound s) (ready : store.isReady = true) :
    b.isReady = true := by
  rcases move.work_cases with ⟨w, r, present, step, _, rfl, _⟩ | aside
  · exact step.isReady (sound w present) ready
  · rcases aside.store with rfl | ⟨call, caller, awaits, _, rfl⟩
    · exact ready
    · exact Call.isReady_finish call caller _ ready (modest.keeps_table awaits)

theorem Move.stays_ready (move : m.Move s store m' b notes) (staged : m.Staged) (modest : m.Modest)
    (sound : ∀ w, m.worker = some w → w.Sound s) (enabled : m.settings.enabled = true)
    (ready : m.worker.isSome = true → store.isReady = true) (there : m'.worker.isSome = true) :
    b.isReady = true := by
  cases move.live staged modest with
  | gone none _ => simp [none] at there
  | launch _ worker scheduler ready => exact ready enabled
  | work present => exact move.isReady modest sound (ready (by simp [present]))
  | pace present step worker => exact move.isReady modest sound (ready (worker ▸ there))
  | aside present => exact move.isReady modest sound (ready (by simp [present]))

/-- On a clear link every call of the worker is answered at once. -/
theorem Move.prompt (move : m.Move s store m' b notes) (staged : m.Staged) (modest : m.Modest)
    (link : s.link = .clear)
    (prompt : ∀ w call, m.worker = some w → w.call? = some call → call.Prompt s.now) {w : Worker}
    {call : Call} (there : m'.worker = some w) (called : w.call? = some call) : call.Prompt s.now := by
  cases move.live staged modest with
  | gone none _ => cases none.symm.trans there
  | launch _ worker scheduler ready =>
    rw [worker] at there
    cases there
    cases called
  | work present step worker scheduler queue =>
    rw [worker] at there
    cases there
    obtain ⟨request, rfl⟩ := step.placed called
    rw [link]
    exact Call.prompt_place s.now request
  | pace present step worker scheduler queue => exact prompt w call (worker ▸ there) called
  | aside present worker scheduler queue =>
    rw [worker] at there
    cases there
    exact prompt _ call present called

/-- A manager whose store answers at once and has its table. -/
structure Undisturbed (s : Surroundings) (store : Backend) (m : Manager) : Prop where
  staged : m.Staged
  attended : m.Attended
  prompt : ∀ w call, m.worker = some w → w.call? = some call → call.Prompt s.now
  ready : m.worker.isSome = true → store.isReady = true
  paced : m.Paced s

theorem undisturbed_fresh (owner : String) (settings : Settings) :
    (fresh owner settings).Undisturbed s store where
  staged := staged_fresh owner settings
  attended := attended_of_none rfl
  prompt w call there := by simp [fresh] at there
  ready there := by simp [fresh] at there
  paced := paced_of_none rfl

theorem Undisturbed.move (h : m.Undisturbed s store) (move : m.Move s store m' b notes)
    (modest : m.Modest) (sound : ∀ w, m.worker = some w → w.Sound s)
    (settings : m.settings = s.settings) (enabled : m.settings.enabled = true) (link : s.link = .clear)
    (fits : Reading.add s.clock s.settings.leaseMillis = s.clock + s.settings.leaseMillis) :
    m'.Undisturbed s b where
  staged := h.staged.move move
  attended := h.attended.move h.staged modest move
  prompt _ _ := move.prompt h.staged modest link h.prompt
  ready := move.stays_ready h.staged modest sound enabled h.ready
  paced := h.paced.move move h.staged modest sound settings fits h.prompt h.ready

theorem Undisturbed.foreign (h : m.Undisturbed s store)
    (ready : store.isReady = true → b.isReady = true) : m.Undisturbed s b :=
  ⟨h.staged, h.attended, h.prompt, fun there => ready (h.ready there), h.paced⟩

theorem Undisturbed.tick (h : m.Undisturbed s store) (rests : m.Resting s store)
    (now : s'.now = s.now + 1) (clock : s'.clock = s.clock + 1) (settings : s'.settings = s.settings) :
    m.Undisturbed s' store where
  staged := h.staged
  attended := h.attended
  prompt w call there called := (h.prompt w call there called).later (by omega)
  ready := h.ready
  paced := h.paced.tick rests h.staged h.attended h.prompt now clock settings

end Manager

/-- Actions that leave clocks and links alone, and rows to the managers and to the calls that they wait
    for. -/
def World.Action.Calm : World.Action → Prop
  | .setLink _ _ | .setClock _ _ | .use _ _ | .land _ => False
  | _ => True

instance : DecidablePred World.Action.Calm
  | .setLink _ _ | .setClock _ _ | .use _ _ | .land _ => .isFalse id
  | .start _ | .list _ | .create _ _ | .release _ _ | .stop _ | .abandon _ | .pick _ | .proceed _
  | .tick => .isTrue trivial

theorem World.reading_of_range {w : World} {p : Participant} (running : p.clock.frozen = none)
    (time : Reading.InRange (w.epoch + w.now))
    (inside : Reading.InRange (w.epoch + w.now + p.clock.offset)) :
    (w.surroundings p).clock = w.epoch + w.now + p.clock.offset := by
  have trueTime : w.trueTime = w.epoch + w.now := Reading.clamp_eq_self time
  change p.clock.reading w.trueTime = _
  rw [ClockSetting.reading, running, trueTime, Option.getD_none, Reading.clamp_eq_self time]
  exact Reading.add_eq inside

/-- A manager by its owner id and what its clock is off by. -/
structure Member where
  owner : String
  offset : Int
  deriving Repr, DecidableEq

/-- Managers with one lease duration that share a store. -/
structure Fleet where
  epoch : Int
  store : Backend
  millis : Nat
  members : List Member
  keyed : store.Keyed
  distinct : (members.map (·.owner)).Nodup
  /-- Every clock passes the check at the start. -/
  near : ∀ member ∈ members, (member.offset.natAbs : Int) ≤ (Settings.ofMillis millis).graceMillis

namespace Fleet

variable (f : Fleet)

/-- Member by member joins. -/
def founded : World :=
  f.members.foldl (fun w member => w.join member.owner (.ofMillis f.millis) 0 ⟨member.offset, none⟩)
    (.initial f.epoch [f.store])

/-- By this time no clock and no expiration has stopped at an end of the range of readings. -/
structure Lasts (now : Nat) : Prop where
  millis : Reading.InRange f.millis
  start : Reading.InRange f.epoch
  time : Reading.InRange (f.epoch + now)
  members : ∀ member ∈ f.members, Reading.InRange (f.epoch + member.offset)
    ∧ Reading.InRange (f.epoch + now + member.offset + f.millis)

variable {f}

theorem Lasts.earlier {now now' : Nat} (lasts : f.Lasts now') (le : now ≤ now') : f.Lasts now := by
  obtain ⟨millis, start, time, members⟩ := lasts
  refine ⟨millis, start, ?_, fun member inside => ⟨(members member inside).1, ?_⟩⟩
  · unfold Reading.InRange at *
    omega
  · have bounds := members member inside
    unfold Reading.InRange at *
    omega

/-- What never changes of a member. -/
structure Enrolled (f : Fleet) (p : Participant) : Prop where
  member : ⟨p.manager.owner, p.clock.offset⟩ ∈ f.members
  clock : p.clock.frozen = none
  settings : p.manager.settings = .ofMillis f.millis
  link : p.link = .clear
  store : p.store = 0

theorem Enrolled.reading {p : Participant} (enrolled : f.Enrolled p) {w : World}
    (epoch : w.epoch = f.epoch) (lasts : f.Lasts w.now) :
    (w.surroundings p).clock = f.epoch + w.now + p.clock.offset := by
  obtain ⟨first, last⟩ := lasts.members _ enrolled.member
  have inside : Reading.InRange (f.epoch + w.now + p.clock.offset) := by
    simp only [Reading.InRange] at *
    omega
  rw [← epoch] at inside ⊢
  exact World.reading_of_range enrolled.clock (epoch ▸ lasts.time) inside

theorem founded_eq (f : Fleet) : f.founded = { World.initial f.epoch [f.store] with
    participants := f.members.map fun member =>
      ⟨.fresh member.owner (.ofMillis f.millis), 0, ⟨member.offset, none⟩, .clear⟩ } := by
  have joined (members : List Member) (w : World) :
      members.foldl (fun w member =>
          w.join member.owner (.ofMillis f.millis) 0 ⟨member.offset, none⟩) w
        = { w with participants := w.participants ++ members.map fun member =>
            ⟨.fresh member.owner (.ofMillis f.millis), 0, ⟨member.offset, none⟩, .clear⟩ } := by
    induction members generalizing w with
    | nil => simp
    | cons member members ih =>
      rw [List.foldl_cons, ih]
      simp [World.join, Settings.ofMillis]
  exact joined f.members _

theorem founded_begins (f : Fleet) : f.founded.Begins := by
  have joined (members : List Member) {w : World} (begins : w.Begins) :
      (members.foldl (fun w member =>
        w.join member.owner (.ofMillis f.millis) 0 ⟨member.offset, none⟩) w).Begins := by
    induction members generalizing w with
    | nil => exact begins
    | cons member members ih => exact ih (.join begins _ _ _ _)
  exact joined f.members (.initial _ _)

/-- What is true of the members at every moment. -/
structure Calm (f : Fleet) (w : World) : Prop where
  guarded : w.Guarded
  epoch : w.epoch = f.epoch
  enrolled : ∀ p ∈ w.participants, f.Enrolled p
  undisturbed : f.Lasts w.now → ∀ p ∈ w.participants,
    p.manager.Undisturbed (w.surroundings p) (w.storeOf p)

theorem founded_numbered (f : Fleet) {i : Nat} {p : Participant}
    (there : f.founded.participants[i]? = some p) : ∃ member, f.members[i]? = some member
      ∧ p = ⟨.fresh member.owner (.ofMillis f.millis), 0, ⟨member.offset, none⟩, .clear⟩ := by
  rw [founded_eq, List.getElem?_map] at there
  obtain ⟨member, inside, rfl⟩ := Option.map_eq_some_iff.mp there
  exact ⟨member, inside, rfl⟩

theorem founded_joined (f : Fleet) {p : Participant} (inside : p ∈ f.founded.participants) :
    ∃ member ∈ f.members,
      p = ⟨.fresh member.owner (.ofMillis f.millis), 0, ⟨member.offset, none⟩, .clear⟩ := by
  obtain ⟨i, there⟩ := List.mem_iff_getElem?.mp inside
  obtain ⟨member, listed, eq⟩ := f.founded_numbered there
  exact ⟨member, List.mem_of_getElem? listed, eq⟩

theorem founded_opening (f : Fleet) : f.founded.Opening := by
  have stores : f.founded.stores = [f.store] := by rw [founded_eq]; rfl
  refine ⟨f.founded_begins, fun b inside => ?_, fun p inside => ?_, fun i j p q first last same => ?_⟩
  · rw [stores] at inside
    exact List.mem_singleton.mp inside ▸ f.keyed
  · obtain ⟨member, _, rfl⟩ := f.founded_joined inside
    simp [stores]
  · obtain ⟨member, listed, rfl⟩ := f.founded_numbered first
    obtain ⟨member', listed', rfl⟩ := f.founded_numbered last
    have inside := (List.getElem?_eq_some_iff.mp listed).1
    refine (List.getElem?_inj (by simpa using inside) f.distinct).mp ?_
    rw [List.getElem?_map, List.getElem?_map, listed, listed']
    exact congrArg some same

theorem calm_founded (f : Fleet) : f.Calm f.founded := by
  refine ⟨f.founded_opening.guarded, ?_, fun p inside => ?_, fun _ p inside => ?_⟩
  · rw [founded_eq]
    rfl
  · obtain ⟨member, listed, rfl⟩ := f.founded_joined inside
    exact ⟨listed, rfl, rfl, rfl, rfl⟩
  · obtain ⟨member, listed, rfl⟩ := f.founded_joined inside
    exact Manager.undisturbed_fresh _ _

variable {w w' : World}

theorem Enrolled.link_clear {p : Participant} (enrolled : f.Enrolled p) (w : World) :
    (w.surroundings p).link = .clear := by
  simp [World.surroundings, enrolled.link]

theorem Enrolled.fits {p : Participant} (enrolled : f.Enrolled p) (epoch : w.epoch = f.epoch)
    (lasts : f.Lasts w.now) :
    (w.surroundings p).settings.leaseMillis = f.millis
      ∧ Reading.add (w.surroundings p).clock (w.surroundings p).settings.leaseMillis
        = (w.surroundings p).clock + (w.surroundings p).settings.leaseMillis := by
  have lease : (w.surroundings p).settings.leaseMillis = f.millis := by
    change p.manager.settings.leaseMillis = f.millis
    rw [enrolled.settings, Settings.leaseMillis_ofMillis lasts.millis]
  refine ⟨lease, Reading.add_eq ?_⟩
  rw [lease, enrolled.reading epoch lasts]
  exact (lasts.members _ enrolled.member).2

theorem Calm.moved (h : f.Calm w) {i : Nat} {p : Participant} {m : Manager} {b : Backend}
    {notes : List Note} (moved : w.Moved i p m b notes w') : f.Calm w' := by
  have member : p ∈ w.participants := List.mem_of_getElem? moved.present
  have enrolled := h.enrolled p member
  have placed := h.guarded.placed p member
  obtain ⟨owner, settings⟩ := moved.move.frame
  refine ⟨h.guarded.moved moved, moved.epoch.trans h.epoch, fun q inside => ?_,
    fun lasts q inside => ?_⟩
  · rcases moved.mem_cases inside with rfl | ⟨_, _, old⟩
    · exact ⟨owner ▸ enrolled.member, enrolled.clock, settings.trans enrolled.settings, enrolled.link,
        enrolled.store⟩
    · exact h.enrolled q (List.mem_of_getElem? old)
  · rw [moved.now] at lasts
    rw [moved.surroundings]
    rcases moved.mem_cases inside with rfl | ⟨_, _, there⟩
    · have same : w.surroundings { p with manager := m } = w.surroundings p := by
        simp [World.surroundings, owner, settings]
      have mine : w'.storeOf { p with manager := m } = b := moved.storeOf_same placed rfl
      rw [same, mine]
      exact (h.undisturbed lasts p member).move moved.move (h.guarded.modest p member)
        (h.guarded.sound p member) rfl (by simp [enrolled.settings, Settings.ofMillis])
        (enrolled.link_clear w) (enrolled.fits h.epoch lasts).2
    · have old : q ∈ w.participants := List.mem_of_getElem? there
      have shared : q.store = p.store := (h.enrolled q old).store.trans enrolled.store.symm
      rw [moved.storeOf_same placed shared]
      refine (w.storeOf_congr shared ▸ h.undisturbed lasts q old).foreign fun ready => ?_
      exact moved.move.isReady (h.guarded.modest p member) (h.guarded.sound p member) ready

theorem Calm.tick (h : f.Calm w) (quiet : w.isQuiet = true) (guarded : (w.elapse 1).Guarded) :
    f.Calm (w.elapse 1) := by
  refine ⟨guarded, h.epoch, h.enrolled, fun lasts p member => ?_⟩
  have earlier : f.Lasts w.now := lasts.earlier (Nat.le_add_right _ _)
  obtain ⟨i, present⟩ := List.mem_iff_getElem?.mp member
  refine (h.undisturbed earlier p member).tick
    (World.resting_of_quiet quiet present (h.guarded.placed p member)) rfl ?_ rfl
  have before := (h.enrolled p member).reading h.epoch earlier
  have after := (h.enrolled p member).reading (w := w.elapse 1) h.epoch lasts
  rw [after, before]
  simp only [World.elapse]
  push_cast
  omega

theorem Calm.change (h : f.Calm w) {a : World.Action} (calm : a.Calm) (change : w.Change a w') :
    f.Calm w' := by
  have guarded : w'.Guarded := by
    refine h.guarded.change ?_ change
    cases a <;> first | exact trivial | exact calm.elim
  cases change with
  | move moved => exact h.moved moved
  | rest same =>
    refine ⟨guarded, same.epoch.trans h.epoch, fun p inside => h.enrolled p (same.participants ▸ inside),
      fun lasts p inside => ?_⟩
    rw [same.surroundings, same.storeOf]
    exact h.undisturbed (same.now ▸ lasts) p (same.participants ▸ inside)
  | tick quiet => exact h.tick quiet guarded
  | setLink | setClock | use | land => exact calm.elim

theorem Calm.of_run {actions : List World.Action} (calm : ∀ a ∈ actions, a.Calm)
    (run : f.founded.run? actions = some w) : f.Calm w :=
  World.run?_preserves (fun _ _ _ h calm change => h.change calm change) calm run f.calm_founded

/-! ## Exclusion -/

theorem Enrolled.pause {p : Participant} (enrolled : f.Enrolled p) (w : World) :
    Manager.pause (w.surroundings p) = (f.millis + 1) / 2 := by
  rw [← Settings.ceilMillis_interval_ofMillis, ← enrolled.settings]
  rfl

theorem Enrolled.apart {p q : Participant} (enrolled : f.Enrolled p) (enrolled' : f.Enrolled q) :
    q.clock.offset ≤ p.clock.offset + 2 * (f.millis / 4 : Nat) := by
  have near : (p.clock.offset.natAbs : Int) ≤ _ := f.near _ enrolled.member
  have near' : (q.clock.offset.natAbs : Int) ≤ _ := f.near _ enrolled'.member
  have grace := Settings.graceMillis_ofMillis_le f.millis
  omega

theorem Calm.not_late (h : f.Calm w) (lasts : f.Lasts w.now) {p : Participant}
    (member : p ∈ w.participants) {k : Worker} (present : p.manager.worker = some k) {point : Int}
    (confirmed : k.confirmedUntil = some point) : ¬ w.Late p.store point := by
  rintro ⟨q, inside, _, past⟩
  have enrolled := h.enrolled p member
  have enrolled' := h.enrolled q inside
  have paced := (h.undisturbed lasts p member).paced.confirmed k point present confirmed
  rw [enrolled.reading h.epoch lasts, (enrolled.fits h.epoch lasts).1, enrolled.pause] at paced
  have reading := enrolled'.reading h.epoch lasts
  change q.clock.reading w.trueTime = _ at reading
  have apart := enrolled.apart enrolled'
  -- The pause and two grace windows fit into a lease, whatever its length leaves over.
  omega

theorem Calm.row_of_held (h : f.Calm w) (lasts : f.Lasts w.now) {p : Participant}
    (member : p ∈ w.participants) {k : Worker} (present : p.manager.worker = some k) {name : String}
    {slot : Slot} (found : k.slots.find? name = some slot) (acquired : slot.acquired = true) :
    ∃ e, (w.storeOf p).held name = some ⟨p.manager.owner, e⟩ := by
  obtain ⟨point, confirmed, ⟨e, _, row⟩ | late⟩ :=
    (h.guarded.backed p member k present).backed name slot found acquired
  · exact ⟨e, row⟩
  · exact absurd late (h.not_late lasts member present confirmed)

theorem Calm.row_of_holds (h : f.Calm w) (lasts : f.Lasts w.now) {i : Nat} {p : Participant}
    (there : w.participants[i]? = some p) {name : String} {id : Nat} (holds : w.Holds i name id) :
    ∃ e, (w.storeOf p).held name = some ⟨p.manager.owner, e⟩ := by
  obtain ⟨p', k, there', present, flag⟩ := holds
  obtain rfl := Option.some.inj (there.symm.trans there')
  obtain ⟨slot, found, _, acquired⟩ := (Slots.holds_iff _ _ _).mp flag
  exact h.row_of_held lasts (List.mem_of_getElem? there) present found acquired

theorem Calm.exclusive (h : f.Calm w) (lasts : f.Lasts w.now) {i j : Nat} {name : String}
    {id id' : Nat} (holds : w.Holds i name id) (holds' : w.Holds j name id') : i = j ∧ id = id' := by
  have ⟨p, k, there, present, flag⟩ := holds
  have ⟨q, l, there', present', flag'⟩ := holds'
  obtain ⟨e, row⟩ := h.row_of_holds lasts there holds
  obtain ⟨e', row'⟩ := h.row_of_holds lasts there' holds'
  have shared : q.store = p.store := (h.enrolled q (List.mem_of_getElem? there')).store.trans
    (h.enrolled p (List.mem_of_getElem? there)).store.symm
  rw [w.storeOf_congr shared, row] at row'
  have owner : p.manager.owner = q.manager.owner := congrArg Holding.owner (Option.some.inj row')
  obtain rfl := h.guarded.owners i j p q there there' owner
  obtain rfl := Option.some.inj (there.symm.trans there')
  obtain rfl := Option.some.inj (present.symm.trans present')
  obtain ⟨slot, found, rfl, _⟩ := (Slots.holds_iff _ _ _).mp flag
  obtain ⟨slot', found', rfl, _⟩ := (Slots.holds_iff _ _ _).mp flag'
  exact ⟨rfl, congrArg Slot.id (Option.some.inj (found.symm.trans found'))⟩

/-- On a store that answers at once, at every moment of every run, a lease is held by one manager at
    most, for one handle, and has a row of that manager in the store. -/
theorem mutual_exclusion (f : Fleet) {actions : List World.Action} {w : World}
    (calm : ∀ a ∈ actions, a.Calm) (run : f.founded.run? actions = some w) (lasts : f.Lasts w.now) :
    (∀ i j name id id', w.Holds i name id → w.Holds j name id' → i = j ∧ id = id')
      ∧ (∀ i j h h', w.Shown i h → w.Shown j h' → h.name = h'.name → i = j ∧ h = h')
      ∧ ∀ i p name id, w.participants[i]? = some p → w.Holds i name id →
          ∃ e, ⟨name, p.manager.owner, e⟩ ∈ (w.storeOf p).rows := by
  have reachable : w.Reachable := ⟨f.founded, actions, f.founded_begins, run⟩
  have held : f.Calm w := .of_run calm run
  refine ⟨fun i j name id id' => held.exclusive lasts, fun i j h h' shown shown' same => ?_,
    fun i p name id there holds => ?_⟩
  · have holds := reachable.holds_of_shown shown
    have holds' := reachable.holds_of_shown shown'
    obtain ⟨rfl, number⟩ := held.exclusive lasts (same ▸ holds) holds'
    obtain ⟨p, there, _, inside, _⟩ := shown
    obtain ⟨q, there', _, inside', _⟩ := shown'
    obtain rfl := Option.some.inj (there.symm.trans there')
    exact ⟨rfl, (reachable.balanced (List.mem_of_getElem? there)).handle_eq inside inside' number⟩
  · obtain ⟨e, row⟩ := held.row_of_holds lasts there holds
    have keyed := held.guarded.keyed_storeOf (List.mem_of_getElem? there)
    exact ⟨e, (Backend.mem_rows_iff keyed _).mpr row⟩

/-- Two managers whose clocks are two grace windows apart. -/
def convoy : Fleet where
  epoch := 0
  store := .freshSqlite
  millis := 8
  members := [⟨"a", -2⟩, ⟨"b", 2⟩]
  keyed := MemoryStore.keyed_empty
  distinct := by decide
  near := by decide

/-- A run of them in which the clock of the second reaches the expiration that the first has written,
    and the second asks for its lease in the same millisecond. -/
def boundary : List World.Action :=
  .start 0 :: World.turn 0 (.attempt 0) 4 ++ .start 1 :: World.turn 1 (.attempt 1) 4
    ++ [.create 0 "x", .create 1 "x"]
    ++ World.turn 0 .scheduler 2 ++ World.turn 0 .worker 9 ++ World.turn 0 .scheduler 2
    ++ World.turn 1 .scheduler 2 ++ World.turn 1 .worker 9 ++ World.turn 1 .scheduler 2
    ++ List.replicate 4 .tick ++ World.turn 1 .scheduler 3 ++ World.turn 1 .worker 7

theorem calm_boundary : ∀ a ∈ boundary, a.Calm := by decide

theorem lasts_convoy : convoy.Lasts 4 := ⟨by decide, by decide, by decide, by decide⟩

theorem mutual_exclusion_boundary : ∃ w, (∀ a ∈ boundary, a.Calm)
    ∧ convoy.founded.run? boundary = some w ∧ convoy.Lasts w.now ∧ w.now = 4
    ∧ w.Holds 0 "x" 0 ∧ (∀ id, ¬ w.Holds 1 "x" id)
    ∧ ∃ p e, w.participants[0]? = some p ∧ ⟨"x", p.manager.owner, e⟩ ∈ (w.storeOf p).rows := by
  have run : convoy.founded.run? boundary = some _ := rfl
  obtain ⟨slots, _, rows⟩ := mutual_exclusion convoy calm_boundary run lasts_convoy
  suffices holds : World.Holds _ 0 "x" 0 by
    refine ⟨_, calm_boundary, run, lasts_convoy, rfl, holds, fun id holds' => ?_, ?_⟩
    · cases (slots 0 1 "x" 0 id holds holds').1
    · obtain ⟨e, row⟩ := rows 0 _ "x" 0 rfl holds
      exact ⟨_, e, rfl, row⟩
  exact ⟨_, _, rfl, rfl, by rfl⟩

end Fleet

end Leasehold
