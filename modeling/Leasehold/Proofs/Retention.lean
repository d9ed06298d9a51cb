import Leasehold.Proofs.Fleet

/-! # Leases stay until they are released

On a store that answers at once no cycle fails, and no cycle finds a row gone whose lease is held. So a
slot loses its lease only with the release of its own handle, and every loss that the journal tells of
directly follows that release.
-/

namespace Leasehold

namespace Slots

theorem holds_of_find? {slots slots' : Slots} {name : String} {id : Nat}
    (same : slots'.find? name = slots.find? name) (holds : slots.holds name id = true) :
    slots'.holds name id = true := by
  rw [Slots.holds, same]
  exact holds

end Slots

namespace Worker

variable {w : Worker} {s : Surroundings} {queue : List Command} {store : Backend} {r : WorkerStep}

/-- Every lease that is held has a row. -/
def Covered (owner : String) (held : Holdings) (w : Worker) : Prop :=
  ∀ name slot, w.slots.find? name = some slot → slot.acquired = true →
    ∃ e, held name = some ⟨owner, e⟩

/-- Notes that tell of no loss, or of a release and the loss that it is. -/
def Lossless (notes : List Note) : Prop :=
  (∀ e ∈ eventsIn notes, e.2 = true)
    ∨ ∃ name id, notes = [.applied (.release name id), .event name id false]

theorem lossless_of_quiet {notes : List Note} (quiet : eventsIn notes = []) : Lossless notes :=
  .inl (by simp [quiet])

/-- A command takes the lease of the handle that it releases only. -/
theorem retains_apply {c : Command} (fits : c.Fits w.slots.ledger) (b : Batch) :
    (∀ name id, w.slots.holds name id = true →
        (w.apply c b).1.slots.holds name id = true ∨ c = .release name id)
      ∧ Lossless (.applied c :: (w.apply c b).2) := by
  cases c with
  | register other number =>
    have free := Slots.find?_of_fits fits
    refine ⟨fun name id holds => .inl (Slots.holds_of_find? ?_ holds), lossless_of_quiet ?_⟩
    · refine Slots.find?_insert_of_ne _ _ ?_
      rintro rfl
      simp [Slots.holds_of_free free] at holds
    · simp only [apply, register, free]
      rfl
  | release other number =>
    simp only [apply, release]
    split
    · exact ⟨fun name id holds => .inl holds, lossless_of_quiet rfl⟩
    · rename_i slot found
      split
      · rename_i own
        refine ⟨fun name id holds => ?_, ?_⟩
        · by_cases same : name = other
          · obtain ⟨slot', found', number', _⟩ := (Slots.holds_iff _ _ _).mp holds
            rw [same, found] at found'
            rw [same, ← number', ← Option.some.inj found', own]
            exact .inr rfl
          · exact .inl (Slots.holds_of_find? (Slots.find?_erase_of_ne _ same) holds)
        · by_cases acquired : slot.acquired = true
          · exact .inr ⟨other, number, by simp [acquired, own]⟩
          · exact lossless_of_quiet (by simp [acquired, eventsIn, Note.event?])
      · exact ⟨fun name id holds => .inl holds, lossless_of_quiet rfl⟩
  | maintain ticket => exact ⟨fun name id holds => .inl holds, lossless_of_quiet rfl⟩

theorem Covered.owned (covered : w.Covered s.owner store.held) (sound : w.Sound s) (keyed : store.Keyed)
    {c : Cycle} {reply : Reply} (cycling : w.activity = .cycling c) (selecting : c.stage = .selecting)
    (answered : (c.call.finish .worker s.trueTime store).1 = .ok reply) {name : String} {slot : Slot}
    (found : w.slots.find? name = some slot) (acquired : slot.acquired = true) :
    reply.nameList.contains name = true := by
  obtain ⟨start, _, _, asks⟩ := (sound.cycling c cycling).begun
  simp only [Cycle.Asks, selecting] at asks
  have performed := (Call.finish_ok answered).1
  rw [asks] at performed
  rw [List.contains_iff_mem, Backend.mem_nameList_selectOwned keyed performed]
  exact covered name slot found acquired

theorem retains_resume (covered : w.Covered s.owner store.held) (sound : w.Sound s)
    (keyed : store.Keyed) (slots : w.slots.Keyed) {c : Cycle} {reply : Reply}
    (cycling : w.activity = .cycling c)
    (answered : (c.call.finish .worker s.trueTime store).1 = .ok reply) :
    (∀ name id, w.slots.holds name id = true → (w.resume s c reply).1.slots.holds name id = true)
      ∧ ∀ e ∈ eventsIn (w.resume s c reply).2, e.2 = true := by
  rcases w.resume_eq s c reply with ⟨other, activity, eq⟩ | ⟨selecting, activity, eq⟩
  · rw [eq, eventsIn_resume other]
    exact ⟨fun name id holds => holds, by simp⟩
  · have owned {name : String} {slot : Slot} (found : w.slots.find? name = some slot)
        (acquired : slot.acquired = true) : reply.nameList.contains name = true :=
      covered.owned sound keyed cycling selecting answered found acquired
    refine ⟨fun name id holds => ?_, fun e told => ?_⟩
    · obtain ⟨slot, found, number, acquired⟩ := (Slots.holds_iff _ _ _).mp holds
      rw [eq]
      refine (Slots.holds_iff _ _ _).mpr ⟨{ slot with acquired := true }, ?_, number, rfl⟩
      change (w.slots.assign reply.nameList.contains).find? name = _
      rw [Slots.find?_assign, found, Option.map_some, owned found acquired]
    · rw [resume_of_selecting selecting, eventsIn_append, eventsIn_purge, List.append_nil,
        eventsIn_reconcile] at told
      rcases List.mem_append.mp told with gained | lost
      · obtain ⟨entry, _, rfl⟩ := List.mem_map.mp gained
        rfl
      · obtain ⟨entry, inside, rfl⟩ := List.mem_map.mp lost
        obtain ⟨changing, acquired⟩ := List.mem_filter.mp inside
        obtain ⟨there, changes⟩ := Slots.mem_changing.mp changing
        have stays := owned (Slots.find?_of_mem slots there) acquired
        rw [stays] at changes
        exact absurd acquired changes

/-- With a store that answers at once, a worker lets a lease go with the release of its handle only. -/
theorem Move.retains (move : w.Move s queue store r) (sound : w.Sound s)
    (prompt : ∀ call, w.call? = some call → call.Prompt s.now) (ready : store.isReady = true)
    (keyed : store.Keyed) (covered : w.Covered s.owner store.held) (slots : w.slots.Keyed)
    (admits : w.slots.ledger.Admits queue) :
    (∀ name id, w.slots.holds name id = true →
        r.worker.slots.holds name id = true ∨ .applied (.release name id) ∈ r.notes)
      ∧ Lossless r.notes := by
  have kept {w' : Worker} {notes : List Note} (same : w'.slots = w.slots) (quiet : eventsIn notes = []) :
      (∀ name id, w.slots.holds name id = true →
          w'.slots.holds name id = true ∨ .applied (.release name id) ∈ notes) ∧ Lossless notes :=
    ⟨fun name id holds => .inl (same ▸ holds), lossless_of_quiet quiet⟩
  cases move with
  | @take c _ _ b listening =>
    obtain ⟨retains, lossless⟩ := retains_apply admits.1 b
    refine ⟨fun name id holds => ?_, lossless⟩
    rcases retains name id holds with still | rfl
    · exact .inl still
    · exact .inr List.mem_cons_self
  | beginCycle draining => exact kept rfl rfl
  | beginRelease parting => exact kept rfl rfl
  | endRelease releasing due =>
    refine kept rfl ?_
    rw [eventsIn_append, eventsIn_finish, eventsIn_endRelease]
    rfl
  | @abandonRelease _ _ r releasing pending late =>
    exact absurd pending (prompt r.call (by simp [call?, releasing])).not_pending
  | resume cycling due answered =>
    obtain ⟨retains, gains⟩ := retains_resume covered sound keyed slots cycling answered
    refine ⟨fun name id holds => .inl (retains name id holds), .inl fun e told => ?_⟩
    rw [eventsIn_append, eventsIn_finish, List.nil_append] at told
    exact gains e told
  | @failCycle _ _ c e cycling due failed =>
    exact absurd failed ((prompt c.call (by simp [call?, cycling])).not_failed ready _ _ e)
  | @overrun _ _ c cycling pending late =>
    exact absurd pending (prompt c.call (by simp [call?, cycling])).not_pending

end Worker

namespace Manager

variable {m m' : Manager} {s : Surroundings} {store b : Backend} {notes : List Note}

/-- All that a manager has to know of itself for this. -/
structure Retentive (s : Surroundings) (store : Backend) (m : Manager) : Prop where
  undisturbed : m.Undisturbed s store
  modest : m.Modest
  balanced : m.Balanced
  truthful : m.Truthful
  sound : ∀ w, m.worker = some w → w.Sound s
  keyed : store.Keyed
  covered : ∀ w, m.worker = some w → w.Covered s.owner store.held

theorem Balanced.admits_slots (balanced : m.Balanced) {w : Worker} (present : m.worker = some w) :
    w.slots.ledger.Admits m.queue := by
  have admits := balanced.admitted (queueOpen_of_worker present)
  rwa [show m.tracked = w.slots.ledger by simp [Manager.tracked, present]] at admits

theorem Retentive.work (h : m.Retentive s store) {w : Worker} {r : WorkerStep}
    (present : m.worker = some w) (step : w.Move s m.queue store r) :
    (∀ name id, w.slots.holds name id = true →
        r.worker.slots.holds name id = true ∨ .applied (.release name id) ∈ r.notes)
      ∧ Worker.Lossless r.notes :=
  step.retains (h.sound w present) (h.undisturbed.prompt w · present)
    (h.undisturbed.ready (by simp [present])) h.keyed (h.covered w present)
    (h.truthful.slots_keyed present) (h.balanced.admits_slots present)

theorem Retentive.move (h : m.Retentive s store) (move : m.Move s store m' b notes) {k : Worker}
    (present : m.worker = some k) {name : String} {id : Nat} (holds : k.slots.holds name id = true) :
    (∃ k', m'.worker = some k' ∧ k'.slots.holds name id = true)
      ∨ .applied (.release name id) ∈ notes ∨ m'.lifecycle = .stopped := by
  cases move.live h.undisturbed.staged h.modest with
  | launch new => cases new.symm.trans present
  | @work k₀ r present' step worker =>
    obtain rfl := Option.some.inj (present.symm.trans present')
    rcases (h.work present step).1 name id holds with still | released
    · exact .inl ⟨r.worker, worker, still⟩
    · exact .inr (.inl released)
  | pace _ _ worker => exact .inl ⟨k, worker.trans present, holds⟩
  | aside present' worker =>
    obtain rfl := Option.some.inj (present.symm.trans present')
    exact .inl ⟨_, worker, holds⟩
  | gone _ stopped => exact .inr (.inr (stopped (by simp [present])))

theorem Retentive.lossless (h : m.Retentive s store) (move : m.Move s store m' b notes) :
    Worker.Lossless notes := by
  rcases move.work_cases with ⟨w, r, present, step, _, _, rfl⟩ | aside
  · exact (h.work present step).2
  · exact Worker.lossless_of_quiet aside.quiet

end Manager

namespace World

variable {w w' w'' : World} {news : List Entry} {a : Action}

/-- Every loss that the journal tells of directly follows the release of the handle. -/
def Explained (journal : List Entry) : Prop := ∀ later entry earlier name id,
  journal = later ++ entry :: earlier → entry.note = .event name id false →
    ∃ rest, earlier = ⟨entry.time, entry.participant, .applied (.release name id)⟩ :: rest

theorem Explained.cons {journal : List Entry} (h : Explained journal) {entry : Entry}
    (explains : ∀ name id, entry.note = .event name id false →
      ∃ rest, journal = ⟨entry.time, entry.participant, .applied (.release name id)⟩ :: rest) :
    Explained (entry :: journal) := by
  intro later loss earlier name id eq lost
  cases later with
  | nil =>
    cases eq
    exact explains name id lost
  | cons first later =>
    cases eq
    exact h later loss earlier name id rfl lost

theorem Explained.append {journal : List Entry} (h : Explained journal) {news : List Entry}
    (quiet : ∀ entry ∈ news, ∀ name id, entry.note ≠ .event name id false) :
    Explained (news ++ journal) := by
  induction news with
  | nil => exact h
  | cons entry news ih =>
    refine (ih fun e member => quiet e (List.mem_cons_of_mem _ member)).cons fun name id lost => ?_
    exact absurd lost (quiet entry List.mem_cons_self name id)

theorem Explained.lines {journal : List Entry} (h : Explained journal) (w : World) (i : Nat)
    {notes : List Note} (lossless : Worker.Lossless notes) :
    Explained (w.lines i notes ++ journal) := by
  rcases lossless with quiet | ⟨name, id, rfl⟩
  · refine h.append fun entry member name id lost => ?_
    obtain ⟨note, told, rfl⟩ := List.mem_map.mp (List.mem_reverse.mp member)
    cases lost
    cases quiet (id, false) (List.mem_filterMap.mpr ⟨_, told, rfl⟩)
  · have released : Explained (⟨w.now, some i, .applied (.release name id)⟩ :: journal) :=
      h.cons nofun
    refine released.cons fun name' id' lost => ?_
    cases lost
    exact ⟨journal, rfl⟩

/-- The manager has been stopped. -/
def Stopped (w : World) (i : Nat) : Prop :=
  ∃ p, w.participants[i]? = some p ∧ p.manager.lifecycle = .stopped

/-- What is held stays held unless its release is among the news or its manager has been stopped. -/
structure Retains (w w' : World) (news : List Entry) : Prop where
  journal : w'.journal = news ++ w.journal
  explained : Explained w.journal → Explained w'.journal
  held : ∀ i name id, w.Holds i name id → w'.Holds i name id
    ∨ (∃ t, ⟨t, some i, .applied (.release name id)⟩ ∈ news) ∨ w'.Stopped i
  stopped : ∀ i, w.Stopped i → w'.Stopped i

theorem retains_of_same (participants : w'.participants = w.participants)
    (journal : w'.journal = w.journal) : w.Retains w' [] where
  journal := journal
  explained h := journal ▸ h
  held i name id holds := by
    rw [Holds, participants]
    exact .inl holds
  stopped i stopped := by
    rw [Stopped, participants]
    exact stopped

theorem Retains.trans {news' : List Entry} (first : w.Retains w' news) (last : w'.Retains w'' news') :
    w.Retains w'' (news' ++ news) where
  journal := by rw [last.journal, first.journal, List.append_assoc]
  explained h := last.explained (first.explained h)
  held i name id holds := by
    rcases first.held i name id holds with still | ⟨t, told⟩ | stopped
    · rcases last.held i name id still with still' | ⟨t, told⟩ | stopped
      · exact .inl still'
      · exact .inr (.inl ⟨t, List.mem_append_left _ told⟩)
      · exact .inr (.inr stopped)
    · exact .inr (.inl ⟨t, List.mem_append_right _ told⟩)
    · exact .inr (.inr (last.stopped i stopped))
  stopped i stopped := last.stopped i (first.stopped i stopped)

theorem Moved.retains {i : Nat} {p : Participant} {m : Manager} {b : Backend} {notes : List Note}
    (moved : w.Moved i p m b notes w')
    (retentive : p.manager.Retentive (w.surroundings p) (w.storeOf p)) :
    w.Retains w' (w.lines i notes) := by
  have there' : w'.participants[i]? = some { p with manager := m } := by
    rw [moved.participants, List.getElem?_set_self (List.getElem?_eq_some_iff.mp moved.present).1]
  have other {j : Nat} (ne : j ≠ i) : w'.participants[j]? = w.participants[j]? := by
    rw [moved.participants, List.getElem?_set_ne (Ne.symm ne)]
  refine ⟨moved.journal, fun h => ?_, fun j name id holds => ?_, fun j stopped => ?_⟩
  · rw [moved.journal]
    exact h.lines w i (retentive.lossless moved.move)
  · obtain ⟨q, k, there, present, flag⟩ := holds
    by_cases same : j = i
    · subst same
      obtain rfl := Option.some.inj (moved.present.symm.trans there)
      rcases retentive.move moved.move present flag with ⟨k', present', still⟩ | told | stopped
      · exact .inl ⟨_, k', there', present', still⟩
      · exact .inr (.inl ⟨w.now, List.mem_reverse.mpr (List.mem_map.mpr ⟨_, told, rfl⟩)⟩)
      · exact .inr (.inr ⟨_, there', stopped⟩)
    · exact .inl ⟨q, k, (other same).trans there, present, flag⟩
  · obtain ⟨q, there, lifecycle⟩ := stopped
    by_cases same : j = i
    · subst same
      obtain rfl := Option.some.inj (moved.present.symm.trans there)
      exact ⟨_, there', moved.move.stopped lifecycle⟩
    · exact ⟨q, (other same).trans there, lifecycle⟩

/-! ## Runs -/

theorem Change.now_le (change : w.Change a w') : w.now ≤ w'.now := by
  cases change with
  | move moved => exact le_of_eq moved.now.symm
  | rest same => exact le_of_eq same.now.symm
  | tick quiet => exact Nat.le_add_right _ _
  | setLink | setClock => exact le_rfl
  | use store request =>
    unfold World.use
    split <;> exact le_rfl
  | land landed =>
    rw [landed.eq]
    exact le_rfl

theorem now_le_of_run {actions : List Action} (run : w.run? actions = some w') : w.now ≤ w'.now :=
  run?_preserves (P := fun v => w.now ≤ v.now)
    (fun _ _ _ le (_ : True) change => le_trans le change.now_le) (fun _ _ => trivial) run le_rfl

end World

namespace Fleet

variable {f : Fleet} {w w' : World}

theorem Calm.retentive (h : f.Calm w) (reachable : w.Reachable) (lasts : f.Lasts w.now)
    {p : Participant} (member : p ∈ w.participants) :
    p.manager.Retentive (w.surroundings p) (w.storeOf p) where
  undisturbed := h.undisturbed lasts p member
  modest := h.guarded.modest p member
  balanced := reachable.balanced member
  truthful := reachable.truthful member
  sound := h.guarded.sound p member
  keyed := h.guarded.keyed_storeOf member
  covered _ present _ _ found acquired := h.row_of_held lasts member present found acquired

theorem Calm.retains (h : f.Calm w) (reachable : w.Reachable) (lasts : f.Lasts w.now)
    {a : World.Action} (calm : a.Calm) (change : w.Change a w') : ∃ news, w.Retains w' news := by
  cases change with
  | move moved =>
    exact ⟨_, moved.retains (h.retentive reachable lasts (List.mem_of_getElem? moved.present))⟩
  | rest same => exact ⟨[], World.retains_of_same same.participants same.journal⟩
  | tick quiet => exact ⟨[], World.retains_of_same rfl rfl⟩
  | setLink | setClock | use | land => exact calm.elim

theorem Calm.run_retains (h : f.Calm w) (reachable : w.Reachable) {actions : List World.Action}
    (calm : ∀ a ∈ actions, a.Calm) (run : w.run? actions = some w') (lasts : f.Lasts w'.now) :
    ∃ news, w.Retains w' news := by
  induction actions generalizing w with
  | nil =>
    cases run
    exact ⟨[], World.retains_of_same rfl rfl⟩
  | cons a actions ih =>
    obtain ⟨next, act, run⟩ := Option.bind_eq_some_iff.mp run
    have change := World.change_of_act? act
    have first := calm a List.mem_cons_self
    have soon : f.Lasts next.now := lasts.earlier (World.now_le_of_run run)
    obtain ⟨news, retains⟩ := h.retains reachable (soon.earlier change.now_le) first change
    obtain ⟨news', retains'⟩ := ih (h.change first change) (reachable.act act)
      (fun b member => calm b (List.mem_cons_of_mem _ member)) run
    exact ⟨_, retains.trans retains'⟩

/-- On a store that answers at once, a lease that is held stays held in every run until the release of
    its own handle is applied or its manager is stopped, and no loss is told without that release. -/
theorem no_spurious_loss (f : Fleet) {actions more : List World.Action} {w w' : World}
    (calm : ∀ a ∈ actions ++ more, a.Calm) (run : f.founded.run? actions = some w)
    (run' : w.run? more = some w') (lasts : f.Lasts w'.now) :
    World.Explained w'.journal ∧ ∃ news, w'.journal = news ++ w.journal
      ∧ ∀ i name id, w.Holds i name id → w'.Holds i name id
        ∨ (∃ t, ⟨t, some i, .applied (.release name id)⟩ ∈ news) ∨ w'.Stopped i := by
  have early : ∀ a ∈ actions, a.Calm := fun a member => calm a (List.mem_append_left _ member)
  have late : ∀ a ∈ more, a.Calm := fun a member => calm a (List.mem_append_right _ member)
  have start : f.founded.Reachable := ⟨f.founded, [], f.founded_begins, rfl⟩
  obtain ⟨_, before⟩ := f.calm_founded.run_retains start early run
    (lasts.earlier (World.now_le_of_run run'))
  obtain ⟨news, retains⟩ := (Calm.of_run early run).run_retains (start.run run) late run' lasts
  have silent : World.Explained f.founded.journal := by
    rw [founded_eq]
    intro later entry earlier name id eq
    cases later <;> cases eq
  exact ⟨retains.explained (before.explained silent), news, retains.journal, retains.held⟩

/-- In the same millisecond the first manager refreshes its lease, then its handle is released. -/
def farewell : List World.Action :=
  World.turn 0 .scheduler 3 ++ World.turn 0 .worker 6 ++ .release 0 0 :: World.turn 0 .worker 4

theorem no_spurious_loss_farewell : ∃ w w', (∀ a ∈ boundary ++ farewell, a.Calm)
    ∧ convoy.founded.run? boundary = some w ∧ w.run? farewell = some w' ∧ convoy.Lasts w'.now
    ∧ w.Holds 0 "x" 0 ∧ ¬ w'.Holds 0 "x" 0 ∧ World.Explained w'.journal
    ∧ ∃ news t, w'.journal = news ++ w.journal
      ∧ ⟨t, some 0, .applied (.release "x" 0)⟩ ∈ news := by
  have calm : ∀ a ∈ boundary ++ farewell, a.Calm := by decide
  have run : convoy.founded.run? boundary = some _ := rfl
  obtain ⟨explained, news, grown, held⟩ := no_spurious_loss convoy calm run rfl lasts_convoy
  suffices both : World.Holds _ 0 "x" 0 ∧ ¬ World.Holds _ 0 "x" 0 ∧ ¬ World.Stopped _ 0 by
    obtain ⟨holds, lost, running⟩ := both
    refine ⟨_, _, calm, run, rfl, lasts_convoy, holds, lost, explained, news, ?_⟩
    rcases held 0 "x" 0 holds with still | ⟨t, released⟩ | stopped
    · exact absurd still lost
    · exact ⟨t, grown, released⟩
    · exact absurd stopped running
  refine ⟨⟨_, _, rfl, rfl, by rfl⟩, ?_, ?_⟩
  · rintro ⟨p, k, there, present, flag⟩
    cases there
    cases present
    cases flag
  · rintro ⟨p, there, lifecycle⟩
    cases there
    cases lifecycle

end Fleet

end Leasehold
