import Leasehold.Proofs.FreshGround

/-! # What follows the release of a handle

A handle that has been given up is forgotten by the worker, or its release is in the queue. No cycle begins
before that release has been applied, so the only cycle that can still acquire the lease is one that is
under way when the handle is given up and has not been told yet what is owned (`Worker.Asking`). If there is
none, the handle is told of a loss at most (`Manager.Still`).
-/

namespace Leasehold

namespace Ledger

/-- A handle that is tracked, or will be, stays so unless it is released. -/
theorem mem_replay {l : Ledger} {queue : List Command} {e : String × Nat} (keyed : (l.map (·.1)).Nodup)
    (admits : l.Admits queue) (known : e ∈ l ∨ .register e.1 e.2 ∈ queue)
    (kept : ∀ name, .release name e.2 ∉ queue) : e ∈ l.replay queue := by
  induction queue generalizing l with
  | nil => exact known.resolve_right List.not_mem_nil
  | cons c queue ih =>
    obtain ⟨fits, admits⟩ := admits
    refine ih (nodup_post keyed c) admits ?_ fun name member => kept name (.tail _ member)
    rcases known with tracked | queued
    · left
      cases c with
      | register name id =>
        refine List.mem_append_left _ (List.mem_filter.mpr ⟨tracked, ?_⟩)
        have free : l.lookup name = none := fits
        have other : e.1 ≠ name := by
          rintro rfl
          rw [Keyed.lookup_of_mem keyed tracked] at free
          cases free
        simpa using other
      | release name id =>
        have here : l.lookup name = some id := fits
        have other : e.1 ≠ name := by
          rintro rfl
          rw [Keyed.lookup_of_mem keyed tracked] at here
          cases here
          exact kept e.1 List.mem_cons_self
        simp only [Command.post, here, if_true]
        exact List.mem_filter.mpr ⟨tracked, by simpa using other⟩
      | maintain ticket => exact tracked
    · rcases List.mem_cons.mp queued with rfl | later
      · exact .inl (List.mem_append_right _ (List.mem_singleton.mpr rfl))
      · exact .inr later

end Ledger

namespace Worker

variable {w : Worker} {s : Surroundings} {queue : List Command} {store : Backend} {r : WorkerStep}

/-- A cycle is under way that has not been told yet what is owned. -/
def Asking (w : Worker) : Prop :=
  ∃ c, w.activity = .cycling c ∧ ∀ name rest, c.stage ≠ .purging name rest

/-- A cycle that has not been told what is owned has just begun on an empty queue, or was under way. It has
    told nothing and tracks what it has tracked. -/
theorem Move.asking_cases (move : w.Move s queue store r) (asking : r.worker.Asking) :
    eventsIn r.notes = [] ∧ (queue = [] ∧ ¬ w.Asking
      ∨ w.Asking ∧ r.worker.slots.ledger = w.slots.ledger) := by
  obtain ⟨c', cycling', early⟩ := asking
  cases move with
  | @take c _ _ b listening =>
    rcases w.apply_activity c b with ⟨eq, _⟩ | ⟨⟨name, eq, _⟩, _⟩ | ⟨ticket, _, eq⟩
    · exact absurd (eq.symm.trans cycling') (afterCommand_ne_cycling b c')
    · cases eq.symm.trans cycling'
    · cases eq.symm.trans cycling'
  | beginCycle draining =>
    refine ⟨rfl, .inl ⟨rfl, ?_⟩⟩
    rintro ⟨c, cycling, _⟩
    cases draining.symm.trans cycling
  | beginRelease parting => cases cycling'
  | @endRelease _ _ r releasing due => exact absurd cycling' (afterCommand_ne_cycling r.batch c')
  | @abandonRelease _ _ r releasing pending late =>
    exact absurd cycling' (afterCommand_ne_cycling r.batch c')
  | @resume _ _ c reply cycling due answered =>
    obtain ⟨_, _, before⟩ := resume_goesOn cycling'
    obtain ⟨other, asking⟩ := before early
    refine ⟨?_, .inr ⟨⟨c, cycling, asking⟩, w.ledger_resume s c reply⟩⟩
    rw [eventsIn_append, eventsIn_finish, eventsIn_resume other, List.append_nil]
  | failCycle | overrun => cases cycling'

/-- What a handle is told to have acquired, a cycle that had not been told what is owned has acquired for
    its slot. -/
theorem Move.asking_of_acquired (move : w.Move s queue store r)
    (distinct : (w.slots.map (·.2.id)).Nodup) {id : Nat} (acquired : told id r.notes = [true]) :
    w.Asking ∧ ∃ c ∈ w.slots, c.2.id = id ∧ c.2.acquired = false := by
  have event : (id, true) ∈ eventsIn r.notes := by
    have member : true ∈ told id r.notes := by simp [acquired]
    obtain ⟨e, inside, flag⟩ := List.mem_map.mp member
    obtain ⟨there, number⟩ := List.mem_filter.mp inside
    have eq : e = (id, true) := Prod.ext (by simpa using number) flag
    exact eq ▸ there
  obtain ⟨c, cycling, selecting⟩ := move.acquires event
  refine ⟨⟨c, cycling, by simp [selecting]⟩, ?_⟩
  rcases (move.flips distinct).told_cases id with silent | ⟨slot, inside, number, flag⟩
  · cases silent.symm.trans acquired
  · refine ⟨slot, inside, number, ?_⟩
    simpa using flag.symm.trans acquired

end Worker

namespace Manager

variable {m m' : Manager} {s : Surroundings} {store b : Backend} {notes past : List Note} {id : Nat}

theorem Balanced.queued_or_gone (balanced : m.Balanced) (truthful : m.Truthful)
    (old : id < m.registry.nextId) (released : ∀ h ∈ m.handles, h.id = id → h.released = true) :
    (∃ name, .release name id ∈ m.queue) ∨ m.Gone id := by
  by_cases queued : ∃ name, Command.release name id ∈ m.queue
  · exact .inl queued
  · refine .inr ⟨old, fun opened known => ?_⟩
    have kept : ∀ name, Command.release name id ∉ m.queue := not_exists.mp queued
    obtain ⟨e, member, rfl⟩ : ∃ e ∈ m.tracked.replay m.queue, e.2 = id := by
      rcases List.mem_append.mp known with tracked | newcomer
      · obtain ⟨e, inside, rfl⟩ := List.mem_map.mp tracked
        exact ⟨e, Ledger.mem_replay truthful.keyed (balanced.admitted opened) (.inl inside) kept, rfl⟩
      · obtain ⟨c, inside, registers⟩ := List.mem_filterMap.mp newcomer
        cases c with
        | register name number =>
          cases registers
          refine ⟨(name, id), ?_, rfl⟩
          exact Ledger.mem_replay truthful.keyed (balanced.admitted opened) (.inr inside) kept
        | _ => cases registers
    rw [balanced.replayed opened, balanced.active] at member
    obtain ⟨h, inside, rfl⟩ := List.mem_map.mp member
    obtain ⟨there, held⟩ := List.mem_filter.mp inside
    simp [released h there rfl] at held

/-- Nothing that is under way can acquire the lease of the handle. -/
def Still (m : Manager) (id : Nat) : Prop :=
  m.Gone id ∨ ∀ w, m.worker = some w → w.Asking → ∀ c ∈ w.slots, c.2.id ≠ id

/-- A step after which a cycle has not been told what is owned, though the release of a handle has not been
    applied. -/
theorem Shift.asking_cases (shift : m.Shift s store m' notes)
    (queued : ∃ name, .release name id ∈ m.queue) {w' : Worker} (present' : m'.worker = some w')
    (asking : w'.Asking) : eventsIn notes = []
      ∧ ∃ w, m.worker = some w ∧ w.Asking ∧ w'.slots.ledger = w.slots.ledger := by
  have kept (quiet : eventsIn notes = []) (keeps : m.worker = m'.worker
      ∨ ∃ w aborted, m.worker = some w ∧ w' = { w with aborted }) : eventsIn notes = []
      ∧ ∃ w, m.worker = some w ∧ w.Asking ∧ w'.slots.ledger = w.slots.ledger := by
    rcases keeps with same | ⟨w, aborted, present, rfl⟩
    · exact ⟨quiet, w', same.trans present', asking, rfl⟩
    · exact ⟨quiet, w, present, asking, rfl⟩
  cases shift with
  | create name =>
    obtain ⟨registry, handles, queue, eq⟩ := m.createHandle_eq name
    exact kept (m.aloof_createHandle name).eventsIn (.inl (by rw [eq]))
  | release id =>
    obtain ⟨registry, handles, queue, eq⟩ := m.releaseHandle_eq id
    exact kept (m.aloof_releaseHandle id).eventsIn (.inl (by rw [eq]))
  | @work w r present move =>
    rw [publishAll_eq] at present'
    cases present'
    obtain ⟨quiet, ⟨empty, _⟩ | ⟨before, same⟩⟩ := move.asking_cases asking
    · obtain ⟨name, member⟩ := queued
      simp [empty] at member
    · exact ⟨quiet, w, present, before, same⟩
  | request | pace => exact kept rfl (.inl rfl)
  | stage staging =>
    cases staging with
    | launch early _ keeps idle _ _ =>
      obtain ⟨w, aborted, fresh, rfl⟩ := keeps.worker_cases present'
      cases fresh
      obtain ⟨c, cycling, _⟩ := asking
      cases cycling
    | keep keeps idle _ _ => exact kept idle.eventsIn (.inr (keeps.worker_cases present'))
  | reap =>
    obtain ⟨queue, eq⟩ := ({ m with worker := none } : Manager).dropQueue_eq
    rw [eq] at present'
    cases present'

theorem mem_slots_iff (slots : Slots) (id : Nat) :
    (∃ c ∈ slots, c.2.id = id) ↔ id ∈ slots.ledger.map (·.2) := by
  simp [Slots.ledger]

/-- A handle that has been given up is told nothing, or that its slot has changed; afterwards nothing can
    acquire its lease any more. If nothing can before, it is told of a loss at most. -/
theorem Recorded.farewell (recorded : m.Recorded past) (old : id < m.registry.nextId)
    (released : ∀ h ∈ m.handles, h.id = id → h.released = true) (shift : m.Shift s store m' notes) :
    (told id notes = [] ∧ (m.Still id → m'.Still id)
      ∨ told id notes = [!latest (told id past)] ∧ m'.Still id)
    ∧ (m.Still id → told id notes ≠ [true]) := by
  obtain ⟨staged, balanced, truthful, once, heard, _⟩ := recorded
  rcases balanced.queued_or_gone truthful old released with queued | gone
  · have asked {w' : Worker} (present' : m'.worker = some w') (asking : w'.Asking) :=
      shift.asking_cases queued present' asking
    refine ⟨?_, fun still acquired => ?_⟩
    · rcases shift.told_cases truthful once id with silent | ⟨_, _, h, member, rfl, flag⟩
      · refine .inl ⟨silent, fun still => ?_⟩
        rcases still with gone | still
        · exact .inl (gone.shift shift staged)
        · refine .inr fun w' present' asking c' inside number => ?_
          obtain ⟨_, w, present, before, same⟩ := asked present' asking
          have tracked := (mem_slots_iff w'.slots id).mp ⟨c', inside, number⟩
          rw [same] at tracked
          obtain ⟨c, there, own⟩ := (mem_slots_iff w.slots id).mpr tracked
          exact still w present before c there own
      · rw [heard.shown h member] at flag
        refine .inr ⟨flag, .inr fun w' present' asking => ?_⟩
        obtain ⟨quiet, _⟩ := asked present' asking
        rw [told_of_quiet quiet] at flag
        cases flag
    · rcases still with gone | still
      · cases (shift.told_of_gone truthful once gone).symm.trans acquired
      · cases shift with
        | @work w r present move =>
          obtain ⟨asking, c, inside, number, _⟩ := move.asking_of_acquired (once.distinct present) acquired
          exact still w present asking c inside number
        | create name => cases (told_of_quiet (m.aloof_createHandle name).eventsIn id).symm.trans acquired
        | release k => cases (told_of_quiet (m.aloof_releaseHandle k).eventsIn id).symm.trans acquired
        | request | pace => cases acquired
        | stage staging => cases (told_of_quiet staging.idle.eventsIn id).symm.trans acquired
        | reap _ idle _ _ => cases (told_of_quiet idle.eventsIn id).symm.trans acquired
  · have silent := shift.told_of_gone truthful once gone
    refine ⟨.inl ⟨silent, fun _ => .inl (gone.shift shift staged)⟩, fun _ acquired => ?_⟩
    cases silent.symm.trans acquired

/-- What has become of a handle since it was given up: `before` is what it had been told until then, and
    `calm` says that nothing could acquire its lease any more. -/
structure Parting (m : Manager) (id : Nat) (before : List Bool) (calm : Prop) (past : List Note) : Prop where
  recorded : m.Recorded past
  old : id < m.registry.nextId
  released : ∀ h ∈ m.handles, h.id = id → h.released = true
  calmed : calm → m.Still id
  since : ∃ more, told id past = before ++ more
    ∧ (more = [] ∨ m.Still id ∧ (latest before = true ∧ more = [false]
      ∨ latest before = false ∧ ¬ calm ∧ (more = [true] ∨ more = [true, false])))

theorem Parting.move {before : List Bool} {calm : Prop} (parting : m.Parting id before calm past)
    (move : m.Move s store m' b notes) : m'.Parting id before calm (past ++ notes) := by
  obtain ⟨recorded, old, released, calmed, more, since, cases⟩ := parting
  have shift := move.shift recorded.staged
  obtain ⟨flag, quiet⟩ := recorded.farewell old released shift
  refine ⟨recorded.move move, Nat.lt_of_lt_of_le old shift.nextId_le, shift.released old released,
    fun still => ?_, ?_⟩
  · rcases flag with ⟨_, stays⟩ | ⟨_, still'⟩
    · exact stays (calmed still)
    · exact still'
  · rcases flag with ⟨silent, stays⟩ | ⟨flips, still'⟩
    · refine ⟨more, by rw [told_append, silent, List.append_nil, since], ?_⟩
      exact cases.imp_right (And.imp_left stays)
    · -- A handle that nothing can acquire any more is not told of an acquisition.
      have last : latest (told id past) = more.getLast?.getD (latest before) := by
        rw [since, latest_append]
      rw [flips, last] at quiet
      refine ⟨more ++ [!latest (told id past)], by rw [told_append, flips, since, List.append_assoc],
        .inr ⟨still', ?_⟩⟩
      rw [last]
      rcases cases with rfl | ⟨still, ⟨shown, rfl⟩ | ⟨hidden, wild, rfl | rfl⟩⟩
      · cases shown : latest before with
        | true => exact .inl ⟨rfl, by simp⟩
        | false =>
          refine .inr ⟨rfl, fun still => quiet (calmed still) (by simp [shown]), .inl (by simp)⟩
      · exact absurd rfl (quiet still)
      · exact .inr ⟨hidden, wild, .inr rfl⟩
      · exact absurd rfl (quiet still)

theorem worker_releaseHandle (m : Manager) (id : Nat) : (m.releaseHandle id).1.worker = m.worker := by
  obtain ⟨registry, handles, queue, eq⟩ := m.releaseHandle_eq id
  rw [eq]

theorem Still.releaseHandle (still : m.Still id) (staged : m.Staged) :
    (m.releaseHandle id).1.Still id := by
  rcases still with gone | still
  · have shift : m.Shift default default (m.releaseHandle id).1 _ := .release id
    exact .inl (gone.shift shift staged)
  · refine .inr fun w present => still w ?_
    rw [← present, worker_releaseHandle]

/-- What may still acquire the lease of a handle that does not hold it is a cycle that has not been told
    what is owned, for the slot of the handle. -/
theorem Recorded.slot_of_restless (recorded : m.Recorded past) {h : Handle} (member : h ∈ m.handles)
    (restless : ¬ m.Still h.id) : ∃ w slot, m.worker = some w ∧ w.Asking
      ∧ w.slots.find? h.name = some slot ∧ slot.id = h.id := by
  have wild := (not_or.mp restless).2
  push Not at wild
  obtain ⟨w, present, asking, ⟨name, slot⟩, inside, number⟩ := wild
  have found := Slots.find?_of_mem (recorded.truthful.slots_keyed present) inside
  have own : name = h.name := recorded.truthful.own recorded.balanced present member name slot found number
  exact ⟨w, slot, present, asking, own ▸ found, number⟩

end Manager

namespace World

variable {w w' : World} {i : Nat} {p : Participant} {h : Handle} {actions : List Action}

theorem release_of_released (present : w.participants[i]? = some p)
    (released : ∀ k, p.manager.handle? h.id = some k → k.released = true) : w.release i h.id = w := by
  simp only [release, changeManager, present, Manager.releaseHandle_of_released released,
    setManager_same present, note_nil]

theorem release_participant (present : w.participants[i]? = some p) (id : Nat) :
    (w.release i id).participants[i]? = some { p with manager := (p.manager.releaseHandle id).1 }
      ∧ (w.release i id).history i id = w.history i id := by
  refine ⟨by simp [release, changeManager, present, note, setManager], ?_⟩
  have journal : (w.release i id).journal = w.lines i (p.manager.releaseHandle id).2 ++ w.journal := by
    simp [release, changeManager, present, note, setManager, lines]
  have past := notesOf_of_lines journal i
  rw [history, past, if_pos rfl, told_append,
    told_of_quiet (p.manager.aloof_releaseHandle id).eventsIn, List.append_nil, history]

theorem Reachable.parting (reachable : w.Reachable) (present : w.participants[i]? = some p)
    (member : h ∈ p.manager.handles) (run : (w.release i h.id).run? actions = some w') {p' : Participant}
    (present' : w'.participants[i]? = some p') :
    p'.manager.Parting h.id (w.history i h.id) (p.manager.Still h.id) (w'.notesOf i) := by
  have recorded := reachable.recorded present
  obtain ⟨present₁, history₁⟩ := release_participant present h.id
  have one : w.run? [.release i h.id] = some (w.release i h.id) := rfl
  have shift : p.manager.Shift default default (p.manager.releaseHandle h.id).1 _ := .release h.id
  have step (m : Manager) (s : Surroundings) (store : Backend) (m' : Manager) (b : Backend)
      (past notes : List Note)
      (parting : m.Parting h.id (w.history i h.id) (p.manager.Still h.id) past)
      (move : m.Move s store m' b notes) :
      m'.Parting h.id (w.history i h.id) (p.manager.Still h.id) (past ++ notes) :=
    parting.move move
  refine run?_keeps_past step run (fun p₁ there => ?_) present'
  obtain rfl := Option.some.inj (present₁.symm.trans there)
  exact ⟨(reachable.run one).recorded present₁,
    Nat.lt_of_lt_of_le (recorded.balanced.id_lt member) shift.nextId_le,
    recorded.balanced.released_of_release h.id, fun still => still.releaseHandle recorded.staged,
    [], by rw [List.append_nil, ← history₁, history], .inl rfl⟩

theorem Reachable.history_of_mute_release (reachable : w.Reachable)
    (present : w.participants[i]? = some p) {id : Nat} (mute : p.manager.Mute id)
    (run : (w.release i id).run? actions = some w') : w'.history i id = w.history i id := by
  have recorded := reachable.recorded present
  obtain ⟨present₁, history₁⟩ := release_participant present id
  have one : w.run? [.release i id] = some (w.release i id) := rfl
  have shift : p.manager.Shift default default (p.manager.releaseHandle id).1 _ := .release id
  rw [← history₁]
  exact (reachable.run one).history_of_mute present₁ (mute.shift shift recorded).1 run

/-- What a handle is told after its release. If it holds its lease, it is told of the loss at most. If it
    does not, it is told nothing, unless a cycle is under way that has not been told what is owned and has a
    slot for it; such a cycle may acquire the lease, and then the handle is told so and of the loss when the
    release is applied. To release it again changes nothing at all. -/
theorem told_since_release (reachable : w.Reachable) (present : w.participants[i]? = some p)
    (member : h ∈ p.manager.handles) (run : (w.release i h.id).run? actions = some w') :
    (∃ more, w'.history i h.id = w.history i h.id ++ more
      ∧ (w.Holds i h.name h.id → more = [] ∨ more = [false])
      ∧ (¬ w.Holds i h.name h.id → more = []
        ∨ (more = [true] ∨ more = [true, false])
          ∧ ∃ k c slot, p.manager.worker = some k ∧ k.activity = .cycling c
            ∧ (∀ name rest, c.stage ≠ .purging name rest)
            ∧ k.slots.find? h.name = some slot ∧ slot.id = h.id ∧ slot.acquired = false)
      ∧ ∀ name, .applied (.release name h.id) ∈ w'.notesOf i → more ≠ [true])
    ∧ w'.release i h.id = w' := by
  have recorded := reachable.recorded present
  obtain ⟨p', present'⟩ := present_of_run run ((release_participant present h.id).1)
  have parting := reachable.parting present member run present'
  have recorded' := parting.recorded
  constructor
  · obtain ⟨more, since, cases⟩ := parting.since
    have shown := recorded.heard.shown h member
    refine ⟨more, since, fun ⟨q, k, there, worker, holds⟩ => ?_, fun lacks => ?_, fun name applied => ?_⟩
    · obtain rfl := Option.some.inj (present.symm.trans there)
      rw [recorded.truthful.shown k worker h member, holds] at shown
      rcases cases with rfl | ⟨_, ⟨_, rfl⟩ | ⟨hidden, _⟩⟩
      · exact .inl rfl
      · exact .inr rfl
      · cases shown.trans hidden
    · by_cases mute : p.manager.Mute h.id
      · left
        have silent := reachable.history_of_mute_release present mute run
        exact List.append_right_eq_self.mp (since.symm.trans silent)
      · have hidden : latest (told h.id (w.notesOf i)) = false := by
          rw [← shown]
          cases worker : p.manager.worker with
          | none =>
            exact recorded.truthful.hidden worker (fun stopped => mute (.inr ⟨worker, stopped⟩)) h member
          | some k =>
            rw [recorded.truthful.shown k worker h member, ← Bool.not_eq_true]
            exact fun holds => lacks ⟨p, k, present, worker, holds⟩
        rcases cases with rfl | ⟨_, ⟨held, _⟩ | ⟨_, restless, heard⟩⟩
        · exact .inl rfl
        · cases hidden.symm.trans held
        · obtain ⟨k, slot, worker, ⟨c, cycling, early⟩, found, number⟩ :=
            recorded.slot_of_restless member restless
          refine .inr ⟨heard, k, c, slot, worker, cycling, early, found, number, ?_⟩
          rw [← Bool.not_eq_true]
          exact fun acquired => lacks ⟨p, k, present, worker,
            (k.slots.holds_iff h.name h.id).mpr ⟨slot, found, number, acquired⟩⟩
    · rintro rfl
      have last := (recorded'.parted name h.id applied).2
      rw [since, latest_append] at last
      cases last
  · apply release_of_released present'
    intro k found
    exact parting.released k (List.mem_of_find?_eq_some found) (by simpa using List.find?_some found)

/-- A cycle waits for the list of what is owned; a handle has been created before it began. -/
def asked : List Action :=
  .start 0 :: turn 0 (.attempt 0) 4 ++ [.setLink 0 { delays := [(.selectOwned, 1)] }, .create 0 "x"]
    ++ turn 0 .scheduler 2 ++ turn 0 .worker 8

/-- The handle is given up while the cycle waits, acquires its lease all the same, and loses it at once. -/
theorem told_since_release_asked : ∃ (w w' : World) (p : Participant) (h : Handle),
    w.Reachable ∧ w.participants[0]? = some p ∧ h ∈ p.manager.handles
      ∧ (w.release 0 h.id).run? (.tick :: turn 0 .worker 2) = some w'
      ∧ ¬ w.Holds 0 h.name h.id ∧ w.history 0 h.id = [] ∧ w'.history 0 h.id = [true, false]
      ∧ (∃ k c slot, p.manager.worker = some k ∧ k.activity = .cycling c
          ∧ (∀ name rest, c.stage ≠ .purging name rest)
          ∧ k.slots.find? h.name = some slot ∧ slot.id = h.id ∧ slot.acquired = false)
      ∧ w'.release 0 h.id = w' := by
  obtain ⟨w, p, h, w', reached, present, member, run, lacks, before, after⟩ :
      ∃ (w : World) (p : Participant) (h : Handle) (w' : World), lone.run? asked = some w
        ∧ w.participants[0]? = some p ∧ h ∈ p.manager.handles
        ∧ (w.release 0 h.id).run? (.tick :: turn 0 .worker 2) = some w' ∧ ¬ w.Holds 0 h.name h.id
        ∧ w.history 0 h.id = [] ∧ w'.history 0 h.id = [true, false] := by
    refine ⟨_, _, _, _, rfl, rfl, .head _, rfl, ?_, rfl, rfl⟩
    rintro ⟨_, _, ⟨⟩, ⟨⟩, ⟨⟩⟩
  have reachable : w.Reachable :=
    ⟨lone, asked, .join (.initial 0 [.freshMemory]) "a" (.ofMillis 8) 0 {}, reached⟩
  obtain ⟨⟨more, since, _, unheld, _⟩, again⟩ := told_since_release reachable present member run
  rw [before, after, List.nil_append] at since
  subst since
  rcases unheld lacks with none | ⟨_, wild⟩
  · cases none
  · exact ⟨w, w', p, h, reachable, present, member, run, lacks, before, after, wild, again⟩

end World

end Leasehold
