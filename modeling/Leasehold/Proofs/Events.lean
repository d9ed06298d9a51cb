import Leasehold.Proofs.Chronicle

/-! # Events of a handle

A handle is told when it acquires its lease and when it loses it, and nothing in between: its events
alternate, and what it shows is the last of them. A slot is the only source of events for the handle
of its number (`Worker.Move.flips`), every number enters the slots once at most (`Manager.Once`), and
never again after its release (`Manager.Gone`).
-/

namespace Leasehold

/-- What a handle is told, the first first. -/
def told (id : Nat) (notes : List Note) : List Bool :=
  ((eventsIn notes).filter fun e => e.1 = id).map (·.2)

theorem told_append (id : Nat) (notes notes' : List Note) :
    told id (notes ++ notes') = told id notes ++ told id notes' := by
  rw [told, eventsIn_append, List.filter_append, List.map_append, told, told]

theorem told_of_quiet {notes : List Note} (quiet : eventsIn notes = []) (id : Nat) :
    told id notes = [] := by
  rw [told, quiet]
  rfl

theorem flagAfter_eq_told (id : Nat) (shown : Bool) (notes : List Note) :
    flagAfter id shown (eventsIn notes) = (told id notes).getLast?.getD shown := by
  unfold told
  induction eventsIn notes generalizing shown with
  | nil => rfl
  | cons e events ih =>
    have step : flagAfter id shown (e :: events)
        = flagAfter id (if e.1 = id then e.2 else shown) events := rfl
    rw [step, ih]
    by_cases own : e.1 = id
    · simp [own, List.getLast?_cons]
    · simp [own]

/-- Flags that alternate, beginning with `true`. -/
def Alternates (flags : List Bool) : Prop := flags.IsChain (· ≠ ·) ∧ flags.head? ≠ some false

/-- What the last of some flags says; nothing is acquired at first. -/
def latest (flags : List Bool) : Bool := flags.getLast?.getD false

theorem latest_iff (flags : List Bool) : latest flags = true ↔ flags.getLast? = some true := by
  unfold latest
  cases flags.getLast? <;> simp

theorem latest_append (flags flags' : List Bool) :
    latest (flags ++ flags') = flags'.getLast?.getD (latest flags) := by
  rw [latest, List.getLast?_append, latest]
  cases flags'.getLast? <;> rfl

theorem Alternates.concat {flags : List Bool} (alternates : Alternates flags) :
    Alternates (flags ++ [!latest flags]) := by
  obtain ⟨chain, head⟩ := alternates
  constructor
  · apply List.isChain_append.mpr
    refine ⟨chain, List.isChain_singleton _, fun last there next here => ?_⟩
    have value : latest flags = last := by
      rw [latest, Option.mem_def.mp there]
      rfl
    simp only [List.head?_cons, Option.mem_def, Option.some.injEq] at here
    rw [← here, value]
    cases last <;> simp
  · cases flags with
    | nil => simp [latest]
    | cons flag flags => simpa using head

/-! ## What a worker tells -/

namespace Worker

variable {w : Worker} {s : Surroundings} {queue : List Command} {store : Backend}

/-- Every event is that of a slot whose flag changes, and no two events are for the same handle. -/
structure Flips (w : Worker) (notes : List Note) : Prop where
  slot : ∀ e ∈ eventsIn notes, ∃ c ∈ w.slots, c.2.id = e.1 ∧ e.2 = !c.2.acquired
  once : ((eventsIn notes).map (·.1)).Nodup

theorem flips_of_quiet {notes : List Note} (quiet : eventsIn notes = []) : w.Flips notes where
  slot := by simp [quiet]
  once := by simp [quiet]

theorem Flips.of_same {notes notes' : List Note} (flips : w.Flips notes)
    (same : eventsIn notes' = eventsIn notes) : w.Flips notes' where
  slot := same ▸ flips.slot
  once := same ▸ flips.once

theorem Flips.told_cases {notes : List Note} (flips : w.Flips notes) (id : Nat) :
    told id notes = []
      ∨ ∃ c ∈ w.slots, c.2.id = id ∧ told id notes = [!c.2.acquired] := by
  have own : ∀ e ∈ (eventsIn notes).filter (fun e => e.1 = id), e ∈ eventsIn notes ∧ e.1 = id := by
    intro e member
    simpa using List.mem_filter.mp member
  have once : (((eventsIn notes).filter fun e => e.1 = id).map (·.1)).Nodup :=
    flips.once.sublist (List.filter_sublist.map _)
  rw [told]
  generalize (eventsIn notes).filter (fun e => e.1 = id) = events at own once
  cases events with
  | nil => exact .inl rfl
  | cons e events =>
    obtain ⟨there, mine⟩ := own e List.mem_cons_self
    have alone : events = [] := by
      apply List.eq_nil_iff_forall_not_mem.mpr
      intro e' member
      have mine' := (own e' (List.mem_cons_of_mem _ member)).2
      apply (List.nodup_cons.mp once).1
      exact List.mem_map.mpr ⟨e', member, mine'.trans mine.symm⟩
    obtain ⟨c, inside, number, flag⟩ := flips.slot e there
    subst alone
    exact .inr ⟨c, inside, number.trans mine, by simp [flag]⟩

theorem flips_giveUp (distinct : (w.slots.map (·.2.id)).Nodup) : w.Flips (w.giveUp s).2 := by
  cases due : w.mustGiveUp s with
  | false =>
    apply flips_of_quiet
    rw [giveUp_of_safe due]
    rfl
  | true =>
    have events : eventsIn (w.giveUp s).2
        = (w.slots.changing fun _ => false).map fun c => (c.2.id, false) := by
      rw [eventsIn_giveUp, if_pos due]
    constructor
    · intro e member
      rw [events] at member
      obtain ⟨c, changing, rfl⟩ := List.mem_map.mp member
      obtain ⟨inside, changes⟩ := Slots.mem_changing.mp changing
      exact ⟨c, inside, rfl, by simpa using changes⟩
    · rw [events, List.map_map]
      exact distinct.sublist (List.filter_sublist.map _)

theorem flips_reconcile (distinct : (w.slots.map (·.2.id)).Nodup) (owned : List String)
    (expiration : Int) : w.Flips (w.reconcile s owned expiration).2 := by
  have events := w.eventsIn_reconcile s owned expiration
  generalize changed : w.slots.changing owned.contains = changing at events
  constructor
  · intro e member
    rw [events] at member
    rcases List.mem_append.mp member with gained | lost
    · obtain ⟨c, inside, rfl⟩ := List.mem_map.mp gained
      obtain ⟨there, off⟩ := List.mem_filter.mp inside
      exact ⟨c, (Slots.mem_changing.mp (changed ▸ there)).1, rfl, by simpa using off⟩
    · obtain ⟨c, inside, rfl⟩ := List.mem_map.mp lost
      obtain ⟨there, on⟩ := List.mem_filter.mp inside
      exact ⟨c, (Slots.mem_changing.mp (changed ▸ there)).1, rfl, by simpa using on⟩
  · -- gained and lost slots together are those that change, in another order
    have halves : (changing.filter (fun c => !c.2.acquired) ++ changing.filter fun c => c.2.acquired).Perm
        changing := by
      simpa using List.filter_append_perm (fun c => !c.2.acquired) changing
    have ids : (eventsIn (w.reconcile s owned expiration).2).map (·.1)
        = (changing.filter (fun c => !c.2.acquired)
          ++ changing.filter fun c => c.2.acquired).map (·.2.id) := by
      rw [events]
      simp [Function.comp_def]
    rw [ids, (halves.map _).nodup_iff, ← changed]
    exact distinct.sublist (List.filter_sublist.map _)

theorem flips_apply (c : Command) (b : Batch) : w.Flips (w.apply c b).2 := by
  cases c with
  | register name id =>
    apply flips_of_quiet
    simp only [apply, register]
    split <;> rfl
  | maintain ticket => exact flips_of_quiet rfl
  | release name id =>
    simp only [apply, release]
    cases found : w.slots.find? name with
    | none => exact flips_of_quiet rfl
    | some slot =>
      dsimp only
      split
      · split
        · rename_i acquired
          have inside := Keyed.mem_of_lookup found
          constructor
          · intro e member
            obtain rfl := List.mem_singleton.mp member
            exact ⟨(name, slot), inside, rfl, by simp [acquired]⟩
          · exact List.nodup_singleton _
        · exact flips_of_quiet rfl
      · exact flips_of_quiet rfl

theorem Move.flips {r : WorkerStep} (move : w.Move s queue store r)
    (distinct : (w.slots.map (·.2.id)).Nodup) : w.Flips r.notes := by
  have after (notes : List Note) {notes' : List Note} (quiet : eventsIn notes = [])
      (same : eventsIn notes' = eventsIn (w.giveUp s).2) : w.Flips (notes ++ notes') := by
    apply (flips_giveUp (s := s) distinct).of_same
    rw [eventsIn_append, quiet, same, List.nil_append]
  cases move with
  | @take c _ _ b listening => exact (flips_apply c b).of_same rfl
  | beginCycle draining => exact flips_of_quiet rfl
  | beginRelease parting => exact flips_of_quiet rfl
  | @endRelease _ _ release releasing due =>
    apply flips_of_quiet
    rw [eventsIn_append, eventsIn_finish, eventsIn_endRelease, List.append_nil]
  | abandonRelease releasing pending late => exact (flips_giveUp distinct).of_same rfl
  | @resume _ _ c reply cycling due answered =>
    by_cases selecting : c.stage = .selecting
    · apply (flips_reconcile (s := s) distinct reply.nameList c.expiration).of_same
      rw [eventsIn_append, eventsIn_finish, resume_of_selecting selecting, eventsIn_append,
        eventsIn_purge, List.append_nil, List.nil_append]
    · apply flips_of_quiet
      rw [eventsIn_append, eventsIn_finish, eventsIn_resume selecting, List.append_nil]
  | failCycle cycling due failed => exact after _ (eventsIn_finish _ _ _ _) (eventsIn_failCycle _ _ _ _ _)
  | @overrun _ _ c cycling pending late =>
    exact after [.cancelled .worker c.call.request] rfl (eventsIn_failCycle _ _ _ _ _)

theorem Move.take_of_applied {r : WorkerStep} (move : w.Move s queue store r) {c : Command}
    (member : .applied c ∈ r.notes) :
    queue = c :: r.queue ∧ r.worker.slots.ledger = c.post w.slots.ledger := by
  rcases move.routine with ⟨_, routine⟩ | ⟨taken, rest, queue, post, eq, routine⟩
  · cases routine _ member
  · rw [eq] at member
    rcases List.mem_cons.mp member with applied | later
    · cases applied
      exact ⟨queue, post⟩
    · cases routine _ later

end Worker

/-- The number of the handle that a command makes known to the worker. -/
def Command.newcomer? : Command → Option Nat
  | .register _ id => some id
  | _ => none

namespace Manager

variable {m m' : Manager} {s : Surroundings} {store b : Backend} {notes past : List Note}

/-- The handles that the worker knows, or will know once it has taken what is queued. -/
def known (m : Manager) : List Nat := m.tracked.map (·.2) ++ m.queue.filterMap Command.newcomer?

theorem known_work {w : Worker} {r : WorkerStep} (present : m.worker = some w)
    (move : w.Move s m.queue store r) :
    List.Sublist (r.worker.slots.ledger.map (·.2) ++ r.queue.filterMap Command.newcomer?) m.known := by
  have tracked : m.tracked = w.slots.ledger := by simp [Manager.tracked, present]
  rw [known, tracked]
  rcases move.ledger_cases with ⟨same, queue⟩ | ⟨c, queue, post⟩
  · rw [same, queue]
  · rw [post, queue]
    have rest (name : String) : ((w.slots.ledger.filter fun e => e.1 ≠ name).map (·.2)).Sublist
        (w.slots.ledger.map (·.2)) := List.filter_sublist.map _
    cases c with
    | register name id =>
      simp only [Command.post, Command.newcomer?, List.filterMap_cons, List.map_append,
        List.map_cons, List.map_nil, List.append_assoc, List.cons_append, List.nil_append]
      exact (rest name).append (List.Sublist.refl _)
    | release name id =>
      simp only [Command.post, Command.newcomer?, List.filterMap_cons]
      split
      · exact (rest name).append (List.Sublist.refl _)
      · exact List.Sublist.refl _
    | maintain ticket => exact List.Sublist.refl _

/-- The worker hears of no handle twice. -/
def Once (m : Manager) : Prop := m.queueOpen = true → m.known.Nodup

theorem Once.distinct (once : m.Once) {w : Worker} (present : m.worker = some w) :
    (w.slots.map (·.2.id)).Nodup := by
  have opened := queueOpen_of_worker present
  have tracked : m.tracked.map (·.2) = w.slots.map (·.2.id) := by
    simp [Manager.tracked, present, Slots.ledger]
  rw [← tracked]
  exact (List.nodup_append.mp (once opened)).1

theorem mem_known_of_slot {w : Worker} (present : m.worker = some w) {c : String × Slot}
    (member : c ∈ w.slots) : c.2.id ∈ m.known := by
  apply List.mem_append_left
  simp only [Manager.tracked, present, Option.map_some, Option.getD_some, Slots.ledger,
    List.map_map]
  exact List.mem_map_of_mem member

theorem Truthful.known_lt (truthful : m.Truthful) (balanced : m.Balanced)
    (opened : m.queueOpen = true) : ∀ id ∈ m.known, id < m.registry.nextId := by
  have handed : ∀ e ∈ m.handed, e.2 < m.registry.nextId := by
    intro e member
    obtain ⟨h, inside, rfl⟩ := List.mem_map.mp member
    exact balanced.id_lt inside
  intro id member
  rcases List.mem_append.mp member with tracked | queued
  · obtain ⟨e, inside, rfl⟩ := List.mem_map.mp tracked
    exact handed e (truthful.tracked e inside)
  · obtain ⟨c, inside, newcomer⟩ := List.mem_filterMap.mp queued
    cases c with
    | register name number =>
      cases newcomer
      exact handed (name, id) (truthful.queued opened name id inside)
    | _ => cases newcomer

theorem releaseHandle_parts (m : Manager) (id : Nat) : ∃ active handles more,
    more.filterMap Command.newcomer? = []
      ∧ (m.releaseHandle id).1 = { m with
        registry := { m.registry with active }, handles, queue := m.queue ++ more } := by
  rcases m.releaseHandle_cases id with eq | ⟨h, _, _, _, eq⟩
  · rw [eq]
    exact ⟨m.registry.active, m.handles, [], rfl, by rw [List.append_nil]⟩
  · rw [eq]
    generalize same : ({ m with handles := giveBack m.handles id } : Manager) = m₁
    by_cases active : m₁.registry.active.lookup h.name = some id
    · rw [unregister_of_active active]
      obtain ⟨more, command, sent⟩ := send_eq ({ m₁ with registry := { m₁.registry with
        active := m₁.registry.active.filter fun e => e.1 ≠ h.name } } : Manager) (.release h.name id)
      subst same
      refine ⟨_, _, more, ?_, sent⟩
      rcases command with rfl | rfl <;> rfl
    · rw [unregister_of_other active, ← same]
      exact ⟨m.registry.active, _, [], rfl, by rw [List.append_nil]⟩

theorem Shift.nextId_le (shift : m.Shift s store m' notes) :
    m.registry.nextId ≤ m'.registry.nextId := by
  cases shift with
  | create name =>
    cases opened : m.queueOpen with
    | false => rw [createHandle_of_closed opened]
    | true =>
      cases taken : m.registry.active.lookup name with
      | some id => rw [createHandle_of_taken opened (by simp [taken])]
      | none =>
        rw [createHandle_of_free opened taken]
        exact Nat.le_succ _
  | release id =>
    obtain ⟨active, handles, more, _, eq⟩ := m.releaseHandle_parts id
    rw [eq]
  | work present move => rw [publishAll_eq]
  | request opened running => exact Nat.le_refl _
  | pace running => exact Nat.le_refl _
  | stage staging =>
    rw [staging.registry]
  | reap stopped idle lost closed => rw [(keeps_dropQueue _).registry]

/-- A move makes at most the next handle known. -/
theorem Shift.known_cases (shift : m.Shift s store m' notes) (staged : m.Staged)
    (opened' : m'.queueOpen = true) : m.queueOpen = true
      ∧ (m'.known.Sublist m.known
        ∨ m'.known = m.known ++ [m.registry.nextId]
          ∧ m'.registry.nextId = m.registry.nextId + 1) := by
  cases shift with
  | create name =>
    cases opened : m.queueOpen with
    | false =>
      rw [createHandle_of_closed opened] at opened'
      exact absurd opened' (by simp [opened])
    | true =>
      cases taken : m.registry.active.lookup name with
      | some id =>
        rw [createHandle_of_taken opened (by simp [taken])]
        exact ⟨rfl, .inl (List.Sublist.refl _)⟩
      | none =>
        rw [createHandle_of_free opened taken]
        refine ⟨rfl, .inr ⟨?_, rfl⟩⟩
        simp [known, Manager.tracked, List.filterMap_append, Command.newcomer?]
  | release id =>
    obtain ⟨active, handles, more, silent, eq⟩ := m.releaseHandle_parts id
    rw [eq] at opened' ⊢
    refine ⟨opened', .inl ?_⟩
    simp [known, Manager.tracked, List.filterMap_append, silent]
  | work present move =>
    rw [publishAll_eq] at opened' ⊢
    exact ⟨queueOpen_of_worker present, .inl (known_work present move)⟩
  | request opened running =>
    refine ⟨opened, .inl ?_⟩
    simp [known, Manager.tracked, List.filterMap_append, Command.newcomer?]
  | pace running => exact ⟨opened', .inl (List.Sublist.refl _)⟩
  | stage staging =>
    obtain ⟨opened, queue⟩ := staging.queue opened'
    refine ⟨opened, .inl ?_⟩
    rw [known, known, queue, staging.tracked staged]
  | reap stopped idle lost closed =>
    rw [dropQueue, if_neg (by simp [closed])] at opened'
    exact absurd (opened'.symm.trans closed) (by simp)

theorem Once.shift (once : m.Once) (shift : m.Shift s store m' notes) (staged : m.Staged)
    (balanced : m.Balanced) (truthful : m.Truthful) : m'.Once := by
  intro opened'
  obtain ⟨opened, fewer | ⟨more, _⟩⟩ := shift.known_cases staged opened'
  · exact (once opened).sublist fewer
  · rw [more]
    apply List.nodup_append.mpr
    refine ⟨once opened, List.nodup_singleton _, fun id member next new => ?_⟩
    rw [List.mem_singleton.mp new]
    exact Nat.ne_of_lt (truthful.known_lt balanced opened id member)

/-- The worker has forgotten a handle for good. -/
structure Gone (m : Manager) (id : Nat) : Prop where
  old : id < m.registry.nextId
  forgotten : m.queueOpen = true → id ∉ m.known

theorem Gone.shift {id : Nat} (gone : m.Gone id) (shift : m.Shift s store m' notes)
    (staged : m.Staged) : m'.Gone id where
  old := Nat.lt_of_lt_of_le gone.old shift.nextId_le
  forgotten opened' member := by
    obtain ⟨opened, fewer | ⟨more, _⟩⟩ := shift.known_cases staged opened'
    · exact gone.forgotten opened (fewer.subset member)
    · rw [more] at member
      rcases List.mem_append.mp member with before | new
      · exact gone.forgotten opened before
      · exact absurd gone.old (by simp [List.mem_singleton.mp new])

/-- The handles after a move have heard its notes, or are new. -/
theorem Shift.handle_cases (shift : m.Shift s store m' notes) {h' : Handle}
    (member : h' ∈ m'.handles) :
    (∃ h ∈ m.handles, h'.id = h.id ∧ (h.released = true → h'.released = true)
        ∧ h'.published = (told h.id notes).getLast?.getD h.published)
      ∨ h'.id = m.registry.nextId ∧ h'.published = false ∧ eventsIn notes = [] := by
  have kept {notes : List Note} (quiet : eventsIn notes = []) (inside : h' ∈ m.handles) :
      ∃ h ∈ m.handles, h'.id = h.id ∧ (h.released = true → h'.released = true)
        ∧ h'.published = (told h.id notes).getLast?.getD h.published := by
    refine ⟨h', inside, rfl, id, ?_⟩
    rw [told_of_quiet quiet]
    rfl
  cases shift with
  | create name =>
    have quiet := (m.aloof_createHandle name).eventsIn
    cases opened : m.queueOpen with
    | false =>
      rw [createHandle_of_closed opened] at member
      exact .inl (kept quiet member)
    | true =>
      cases taken : m.registry.active.lookup name with
      | some id =>
        rw [createHandle_of_taken opened (by simp [taken])] at member
        exact .inl (kept quiet member)
      | none =>
        rw [createHandle_of_free opened taken] at member
        rcases List.mem_append.mp member with old | new
        · exact .inl (kept quiet old)
        · rw [List.mem_singleton.mp new]
          exact .inr ⟨rfl, rfl, quiet⟩
  | release id =>
    have quiet := (m.aloof_releaseHandle id).eventsIn
    rcases m.releaseHandle_cases id with eq | ⟨k, _, _, _, eq⟩
    · rw [eq] at member
      exact .inl (kept quiet member)
    · obtain ⟨registry, more, _, unregistered⟩ :=
        unregister_eq { m with handles := giveBack m.handles id } k.name id
      rw [eq, unregistered] at member
      obtain ⟨h, inside, released, rfl, stays⟩ := mem_giveBack member
      refine .inl ⟨h, inside, rfl, stays, ?_⟩
      rw [told_of_quiet quiet]
      rfl
  | @work w r present move =>
    rw [publishAll_eq] at member
    obtain ⟨h, inside, rfl⟩ := List.mem_map.mp member
    obtain ⟨published, eq⟩ := Handle.hear_eq r.notes h
    refine .inl ⟨h, inside, by rw [eq], by rw [eq]; exact id, ?_⟩
    rw [Handle.published_hear, flagAfter_eq_told]
  | request opened running => exact .inl (kept rfl member)
  | pace running => exact .inl (kept rfl member)
  | stage staging =>
    rw [staging.handles] at member
    exact .inl (kept staging.idle.eventsIn member)
  | reap stopped idle lost closed =>
    rw [(keeps_dropQueue _).handles] at member
    exact .inl (kept idle.eventsIn member)

/-- A move tells a handle nothing, or that what it shows has changed. The latter is the worker's
    doing, who must know the handle for it. -/
theorem Shift.told_cases (shift : m.Shift s store m' notes) (truthful : m.Truthful) (once : m.Once)
    (id : Nat) : told id notes = []
      ∨ m.queueOpen = true ∧ id ∈ m.known
        ∧ ∃ h ∈ m.handles, h.id = id ∧ told id notes = [!h.published] := by
  cases shift with
  | create name => exact .inl (told_of_quiet (m.aloof_createHandle name).eventsIn id)
  | release number => exact .inl (told_of_quiet (m.aloof_releaseHandle number).eventsIn id)
  | @work w r present move =>
    rcases (move.flips (once.distinct present)).told_cases id with silent | ⟨c, inside, number, flag⟩
    · exact .inl silent
    · have opened := queueOpen_of_worker present
      have tracked : (c.1, c.2.id) ∈ m.tracked := by
        rw [Manager.tracked, present]
        exact List.mem_map.mpr ⟨c, inside, rfl⟩
      obtain ⟨h, member, same⟩ := List.mem_map.mp (truthful.tracked _ tracked)
      have named : h.name = c.1 := congrArg Prod.fst same
      have numbered : h.id = c.2.id := congrArg Prod.snd same
      have shown : h.published = c.2.acquired := by
        have found := Slots.find?_of_mem (truthful.slots_keyed present) inside
        rw [truthful.shown w present h member, named, numbered, Slots.holds, found]
        simp
      refine .inr ⟨opened, number ▸ mem_known_of_slot present inside, h, member,
        numbered.trans number, ?_⟩
      rw [flag, shown]
  | request opened running => exact .inl rfl
  | pace running => exact .inl rfl
  | stage staging => exact .inl (told_of_quiet staging.idle.eventsIn id)
  | reap stopped idle lost closed => exact .inl (told_of_quiet idle.eventsIn id)

/-- What the handles have been told alternates, and they show the last of it. -/
structure Heard (m : Manager) (past : List Note) : Prop where
  alternates : ∀ id, Alternates (told id past)
  shown : ∀ h ∈ m.handles, h.published = latest (told h.id past)
  unborn : ∀ id, m.registry.nextId ≤ id → told id past = []

theorem heard_fresh (owner : String) (settings : Settings) : (fresh owner settings).Heard [] where
  alternates id := ⟨List.isChain_nil, by simp [told, eventsIn]⟩
  shown := by simp [fresh]
  unborn id _ := rfl

theorem Heard.shift (heard : m.Heard past) (shift : m.Shift s store m' notes)
    (balanced : m.Balanced) (truthful : m.Truthful) (once : m.Once) :
    m'.Heard (past ++ notes) where
  alternates id := by
    rw [told_append]
    rcases shift.told_cases truthful once id with silent | ⟨_, _, h, member, rfl, flag⟩
    · rw [silent, List.append_nil]
      exact heard.alternates id
    · rw [flag, heard.shown h member]
      exact (heard.alternates h.id).concat
  shown h' member' := by
    rw [told_append, latest_append]
    rcases shift.handle_cases member' with ⟨h, member, same, _, published⟩ | ⟨new, shown, quiet⟩
    · rw [published, same, heard.shown h member]
    · rw [shown, told_of_quiet quiet, heard.unborn _ (Nat.le_of_eq new.symm)]
      rfl
  unborn id young := by
    have before := heard.unborn id (Nat.le_trans shift.nextId_le young)
    rw [told_append, before]
    rcases shift.told_cases truthful once id with silent | ⟨_, _, h, member, rfl, _⟩
    · exact silent
    · have old := balanced.id_lt member
      have grown := shift.nextId_le
      omega

theorem Shift.work_of_applied (shift : m.Shift s store m' notes) {c : Command}
    (member : .applied c ∈ notes) : ∃ w r, m.worker = some w ∧ w.Move s m.queue store r
      ∧ .applied c ∈ r.notes ∧ m'.queue = r.queue ∧ m'.worker = some r.worker := by
  have busy (aloof : Aloof notes) : False := by
    obtain ⟨sent, eq⟩ := aloof _ member rfl
    cases eq
  cases shift with
  | create name => exact (busy (m.aloof_createHandle name)).elim
  | release id => exact (busy (m.aloof_releaseHandle id)).elim
  | @work w r present move =>
    rw [publishAll_eq]
    exact ⟨w, r, present, move, member, rfl, rfl⟩
  | request opened running => simp at member
  | pace running => simp at member
  | stage staging => exact (busy staging.idle.aloof).elim
  | reap stopped idle lost closed => exact (busy idle.aloof).elim

/-- A worker that has applied the release of a handle has forgotten it. -/
theorem Shift.gone_of_applied (shift : m.Shift s store m' notes) (balanced : m.Balanced)
    (truthful : m.Truthful) (once : m.Once) {name : String} {id : Nat}
    (applied : .applied (.release name id) ∈ notes) : m'.Gone id := by
  obtain ⟨w, r, present, move, member, queue', worker'⟩ := shift.work_of_applied applied
  obtain ⟨queue, post⟩ := move.take_of_applied member
  have opened := queueOpen_of_worker present
  have tracked : m.tracked = w.slots.ledger := by simp [Manager.tracked, present]
  have tracked' : m'.tracked = r.worker.slots.ledger := by simp [Manager.tracked, worker']
  have fits : w.slots.ledger.lookup name = some id := by
    have admitted := balanced.admitted opened
    rw [queue, tracked] at admitted
    exact admitted.1
  have listed : (name, id) ∈ m.tracked := tracked ▸ Keyed.mem_of_lookup fits
  obtain ⟨distinct, _, apart⟩ := List.nodup_append.mp (once opened)
  constructor
  · apply Nat.lt_of_lt_of_le _ shift.nextId_le
    apply truthful.known_lt balanced opened
    exact List.mem_append_left _ (List.mem_map.mpr ⟨_, listed, rfl⟩)
  · intro _ known
    rcases List.mem_append.mp known with still | coming
    · rw [tracked', post, Command.post, if_pos fits] at still
      obtain ⟨e, kept, rfl⟩ := List.mem_map.mp still
      obtain ⟨before, other⟩ := List.mem_filter.mp kept
      have eq : e = (name, e.2) :=
        List.inj_on_of_nodup_map distinct (tracked ▸ before) listed rfl
      have named : e.1 = name := congrArg Prod.fst eq
      simp [named] at other
    · rw [queue'] at coming
      have queued : id ∈ m.queue.filterMap Command.newcomer? := by
        rw [queue]
        exact coming
      exact apart id (List.mem_map_of_mem (f := Prod.snd) listed) id queued rfl

theorem Balanced.exists_handle (balanced : m.Balanced) {id : Nat} (old : id < m.registry.nextId) :
    ∃ h ∈ m.handles, h.id = id := by
  rw [← List.mem_range, ← balanced.numbered] at old
  exact List.mem_map.mp old

theorem Gone.latest {id : Nat} (gone : m.Gone id) (balanced : m.Balanced) (truthful : m.Truthful)
    (heard : m.Heard past) {w : Worker} (present : m.worker = some w) :
    latest (told id past) = false := by
  obtain ⟨h, member, number⟩ := balanced.exists_handle gone.old
  rw [← number, ← heard.shown h member, truthful.shown w present h member, ← Bool.not_eq_true,
    Slots.holds_iff]
  rintro ⟨slot, found, same, _⟩
  have opened := queueOpen_of_worker present
  apply gone.forgotten opened
  rw [← number, ← same]
  exact mem_known_of_slot present (Keyed.mem_of_lookup found)

theorem known_of_replay {l : Ledger} {queue : List Command} {e : String × Nat}
    (member : e ∈ l.replay queue) :
    e.2 ∈ l.map (·.2) ++ queue.filterMap Command.newcomer? := by
  induction queue generalizing l with
  | nil => simpa [Ledger.replay] using List.mem_map_of_mem (f := Prod.snd) member
  | cons c queue ih =>
    rcases List.mem_append.mp (ih member) with posted | coming
    · obtain ⟨e', inside, same⟩ := List.mem_map.mp posted
      rcases Ledger.mem_post inside with old | rfl
      · exact List.mem_append_left _ (same ▸ List.mem_map_of_mem old)
      · exact List.mem_append_right _ (by simp [Command.newcomer?, ← same])
    · rw [List.filterMap_cons]
      split
      · exact List.mem_append_right _ coming
      · exact List.mem_append_right _ (List.mem_cons_of_mem _ coming)

theorem Gone.released {id : Nat} (gone : m.Gone id) (balanced : m.Balanced)
    (opened : m.queueOpen = true) : ∀ h ∈ m.handles, h.id = id → h.released = true := by
  intro h member number
  rw [← Bool.not_eq_false]
  intro held
  have active := Keyed.mem_of_lookup (balanced.lookup_active member held)
  rw [← balanced.replayed opened] at active
  exact gone.forgotten opened (number ▸ known_of_replay active)

/-- A manager, its past, and everything that ties the events of its handles to them. -/
structure Recorded (m : Manager) (past : List Note) : Prop where
  staged : m.Staged
  balanced : m.Balanced
  truthful : m.Truthful
  once : m.Once
  heard : m.Heard past
  parted : ∀ name id, .applied (.release name id) ∈ past →
    m.Gone id ∧ latest (told id past) = false

theorem recorded_fresh (owner : String) (settings : Settings) :
    (fresh owner settings).Recorded [] where
  staged := staged_fresh owner settings
  balanced := balanced_fresh owner settings
  truthful := truthful_fresh owner settings
  once _ := List.nodup_nil
  heard := heard_fresh owner settings
  parted name id applied := by cases applied

theorem Shift.told_of_gone (shift : m.Shift s store m' notes) (truthful : m.Truthful)
    (once : m.Once) {id : Nat} (gone : m.Gone id) : told id notes = [] := by
  rcases shift.told_cases truthful once id with silent | ⟨opened, known, _⟩
  · exact silent
  · exact absurd known (gone.forgotten opened)

theorem Recorded.move (recorded : m.Recorded past) (move : m.Move s store m' b notes) :
    m'.Recorded (past ++ notes) := by
  obtain ⟨staged, balanced, truthful, once, heard, parted⟩ := recorded
  have shift := move.shift staged
  have balanced' := balanced.move staged move
  have truthful' := truthful.move staged balanced move
  have heard' := heard.shift shift balanced truthful once
  refine ⟨staged.move move, balanced', truthful', once.shift shift staged balanced truthful,
    heard', fun name id applied => ?_⟩
  rcases List.mem_append.mp applied with before | now
  · obtain ⟨gone, last⟩ := parted name id before
    refine ⟨gone.shift shift staged, ?_⟩
    rw [told_append, shift.told_of_gone truthful once gone, List.append_nil]
    exact last
  · have gone := shift.gone_of_applied balanced truthful once now
    obtain ⟨w, r, _, _, _, _, present'⟩ := shift.work_of_applied now
    exact ⟨gone, gone.latest balanced' truthful' heard' present'⟩

/-- The worker never hears of the handle again: it has forgotten it, or there is none and never will be. -/
def Mute (m : Manager) (id : Nat) : Prop := m.Gone id ∨ m.worker = none ∧ m.lifecycle = .stopped

theorem Shift.stays_ended (shift : m.Shift s store m' notes) (ended : m.worker = none)
    (stopped : m.lifecycle = .stopped) :
    m'.worker = none ∧ m'.lifecycle = .stopped ∧ eventsIn notes = [] := by
  cases shift with
  | create name =>
    obtain ⟨registry, handles, queue, eq⟩ := m.createHandle_eq name
    rw [eq]
    exact ⟨ended, stopped, (m.aloof_createHandle name).eventsIn⟩
  | release id =>
    obtain ⟨registry, handles, queue, eq⟩ := m.releaseHandle_eq id
    rw [eq]
    exact ⟨ended, stopped, (m.aloof_releaseHandle id).eventsIn⟩
  | work present move => cases ended.symm.trans present
  | request | pace => exact ⟨ended, stopped, rfl⟩
  | stage staging =>
    cases staging with
    | launch early _ _ _ _ _ => simp [Early, stopped] at early
    | keep keeps idle _ stage =>
      refine ⟨Option.eq_none_iff_forall_ne_some.mpr fun w' present' => ?_, ?_, idle.eventsIn⟩
      · obtain ⟨w, _, present, _⟩ := keeps.worker_cases present'
        cases ended.symm.trans present
      · rcases stage with same | stopped' | ⟨early, _⟩
        · exact same.trans stopped
        · exact stopped'
        · simp [Early, stopped] at early
  | reap _ idle _ _ =>
    obtain ⟨queue, eq⟩ := ({ m with worker := none } : Manager).dropQueue_eq
    rw [eq]
    exact ⟨rfl, stopped, idle.eventsIn⟩

theorem Mute.shift {id : Nat} (mute : m.Mute id) (shift : m.Shift s store m' notes)
    (recorded : m.Recorded past) : m'.Mute id ∧ told id notes = [] := by
  rcases mute with gone | ⟨none, stopped⟩
  · exact ⟨.inl (gone.shift shift recorded.staged),
      shift.told_of_gone recorded.truthful recorded.once gone⟩
  · obtain ⟨none', stopped', quiet⟩ := shift.stays_ended none stopped
    exact ⟨.inr ⟨none', stopped'⟩, told_of_quiet quiet id⟩

theorem Shift.released (shift : m.Shift s store m' notes) {id : Nat} (old : id < m.registry.nextId)
    (released : ∀ h ∈ m.handles, h.id = id → h.released = true) :
    ∀ h ∈ m'.handles, h.id = id → h.released = true := by
  intro h' member' number
  rcases shift.handle_cases member' with ⟨h, member, same, stays, _⟩ | ⟨new, _⟩
  · exact stays (released h member (same.symm.trans number))
  · omega

theorem Balanced.released_of_release (balanced : m.Balanced) (id : Nat) :
    ∀ h ∈ (m.releaseHandle id).1.handles, h.id = id → h.released = true := by
  intro h' member' number
  by_cases gone : ∀ h, m.handle? id = some h → h.released = true
  · rw [releaseHandle_of_released gone] at member'
    apply gone
    rw [← number]
    exact balanced.handle?_eq member'
  · push Not at gone
    obtain ⟨h, found, held⟩ := gone
    obtain ⟨registry, more, _, eq⟩ :=
      unregister_eq { m with handles := giveBack m.handles id } h.name id
    rw [releaseHandle_of_held found (by simpa using held), eq] at member'
    obtain ⟨k, _, rfl⟩ := List.mem_map.mp member'
    by_cases same : k.id = id
    · simp [same]
    · simp [same] at number

end Manager

namespace World

/-- What a handle of a participant has been told, the first first. -/
def history (w : World) (i id : Nat) : List Bool := told id (w.notesOf i)

theorem Reachable.recorded {w : World} (reachable : w.Reachable) {i : Nat} {p : Participant}
    (present : w.participants[i]? = some p) : p.manager.Recorded (w.notesOf i) :=
  reachable.past Manager.recorded_fresh
    (fun _ _ _ _ _ _ _ recorded move => recorded.move move) present

theorem Reachable.released_of_applied {w : World} (reachable : w.Reachable) {i : Nat} {p : Participant}
    (present : w.participants[i]? = some p) {h : Handle} (member : h ∈ p.manager.handles)
    {name : String} (applied : .applied (.release name h.id) ∈ w.notesOf i) : h.released = true := by
  have fresh (owner : String) (settings : Settings) :
      (Manager.fresh owner settings).Recorded [] ∧ ∀ name id, Note.applied (.release name id) ∈ [] →
        ∀ h ∈ (Manager.fresh owner settings).handles, h.id = id → h.released = true :=
    ⟨Manager.recorded_fresh owner settings, fun _ _ applied => by cases applied⟩
  refine (reachable.past (P := fun m past => m.Recorded past ∧ ∀ name id,
    .applied (.release name id) ∈ past → ∀ h ∈ m.handles, h.id = id → h.released = true)
    fresh ?_ present).2 name h.id applied h member rfl
  intro m s store m' b past notes ⟨recorded, given⟩ move
  refine ⟨recorded.move move, fun name id applied => ?_⟩
  have shift := move.shift recorded.staged
  rcases List.mem_append.mp applied with before | now
  · exact shift.released (recorded.parted name id before).1.old (given name id before)
  · have gone := shift.gone_of_applied recorded.balanced recorded.truthful recorded.once now
    obtain ⟨_, _, _, _, _, _, worker⟩ := shift.work_of_applied now
    have opened := Manager.queueOpen_of_worker worker
    exact gone.released (recorded.move move).balanced opened

theorem release_manager {w : World} {i : Nat} {p : Participant}
    (present : w.participants[i]? = some p) (id : Nat) {p₁ : Participant}
    (present₁ : (w.release i id).participants[i]? = some p₁) :
    p₁.manager = (p.manager.releaseHandle id).1 := by
  simp only [release, changeManager, present, note, setManager, List.getElem?_modify,
    if_true] at present₁
  exact congrArg Participant.manager (Option.some.inj present₁).symm

theorem Reachable.handles_of_run {w : World} (reachable : w.Reachable) {i : Nat} {p : Participant}
    (present : w.participants[i]? = some p) {actions : List Action} {w' : World}
    (run : w.run? actions = some w') {p' : Participant} (present' : w'.participants[i]? = some p') :
    p.manager.registry.nextId ≤ p'.manager.registry.nextId
      ∧ ∀ id < p.manager.registry.nextId, (∀ h ∈ p.manager.handles, h.id = id → h.released = true) →
        ∀ h' ∈ p'.manager.handles, h'.id = id → h'.released = true := by
  have move (m : Manager) (s : Surroundings) (store : Backend) (m' : Manager) (b : Backend)
      (past notes : List Note)
      (before : m.Staged ∧ p.manager.registry.nextId ≤ m.registry.nextId
        ∧ ∀ id < p.manager.registry.nextId,
          (∀ h ∈ p.manager.handles, h.id = id → h.released = true) →
            ∀ h ∈ m.handles, h.id = id → h.released = true)
      (move : m.Move s store m' b notes) :
      m'.Staged ∧ p.manager.registry.nextId ≤ m'.registry.nextId
        ∧ ∀ id < p.manager.registry.nextId,
          (∀ h ∈ p.manager.handles, h.id = id → h.released = true) →
            ∀ h ∈ m'.handles, h.id = id → h.released = true := by
    obtain ⟨staged, grown, stays⟩ := before
    have shift := move.shift staged
    refine ⟨staged.move move, Nat.le_trans grown shift.nextId_le, fun id old released => ?_⟩
    exact shift.released (Nat.lt_of_lt_of_le old grown) (stays id old released)
  refine (run?_keeps_past move run (fun p₁ present₁ => ?_) present').2
  obtain rfl := Option.some.inj (present.symm.trans present₁)
  exact ⟨reachable.staged (List.mem_of_getElem? present), le_rfl, fun _ _ released => released⟩

/-- A handle that has been given up never says again that it is acquired. -/
theorem Reachable.never_acquired {w : World} (reachable : w.Reachable) {i : Nat} {p : Participant}
    (present : w.participants[i]? = some p) {h : Handle} (member : h ∈ p.manager.handles)
    {actions : List Action} {w' : World} (run : (w.release i h.id).run? actions = some w')
    {p' : Participant} (present' : w'.participants[i]? = some p') :
    ∀ h' ∈ p'.manager.handles, h'.id = h.id → h'.isAcquired = false := by
  have recorded := reachable.recorded present
  have one : w.run? [.release i h.id] = some (w.release i h.id) := rfl
  obtain ⟨p₁, present₁⟩ := present_of_run one present
  have manager := release_manager present h.id present₁
  have moved : p.manager.Move default default (p.manager.releaseHandle h.id).1 _ _ := .release h.id
  have old : h.id < p₁.manager.registry.nextId := by
    rw [manager]
    exact Nat.lt_of_lt_of_le (recorded.balanced.id_lt member) (moved.shift recorded.staged).nextId_le
  have stays := ((reachable.run one).handles_of_run present₁ run present').2 h.id old
  intro h' member' number
  have released := stays (manager ▸ recorded.balanced.released_of_release h.id) h' member' number
  simp [Handle.isAcquired, released]

theorem Reachable.history_of_mute {w : World} (reachable : w.Reachable) {i : Nat} {p : Participant}
    (present : w.participants[i]? = some p) {id : Nat} (mute : p.manager.Mute id)
    {actions : List Action} {w' : World} (run : w.run? actions = some w') :
    w'.history i id = w.history i id := by
  obtain ⟨p', present'⟩ := present_of_run run present
  have move (m : Manager) (s : Surroundings) (store : Backend) (m' : Manager) (b : Backend)
      (past notes : List Note)
      (before : m.Recorded past ∧ m.Mute id ∧ told id past = w.history i id)
      (move : m.Move s store m' b notes) :
      m'.Recorded (past ++ notes) ∧ m'.Mute id ∧ told id (past ++ notes) = w.history i id := by
    obtain ⟨recorded, mute, same⟩ := before
    obtain ⟨mute', silent⟩ := mute.shift (move.shift recorded.staged) recorded
    refine ⟨recorded.move move, mute', ?_⟩
    rw [told_append, silent, List.append_nil, same]
  have kept := run?_keeps_past move run (fun p₁ present₁ => by
    obtain rfl : p = p₁ := Option.some.inj (present.symm.trans present₁)
    exact ⟨reachable.recorded present, mute, rfl⟩) present'
  exact kept.2.2

theorem Reachable.history_of_gone {w : World} (reachable : w.Reachable) {i : Nat} {p : Participant}
    (present : w.participants[i]? = some p) {id : Nat} (gone : p.manager.Gone id)
    {actions : List Action} {w' : World} (run : w.run? actions = some w') :
    w'.history i id = w.history i id :=
  reachable.history_of_mute present (.inl gone) run

/-- The events of a handle alternate, beginning with an acquisition, and the handle shows the last of
    them. It says that it is acquired only if that was an acquisition and nobody has given it up;
    once that has been done, it never says so again. As soon as the worker has applied its release, the
    last event is a loss, if there is any, and no event ever follows. -/
theorem events_alternate {w : World} (reachable : w.Reachable) {i : Nat} {p : Participant}
    (present : w.participants[i]? = some p) {h : Handle} (member : h ∈ p.manager.handles) :
    (w.history i h.id).IsChain (· ≠ ·)
      ∧ (w.history i h.id).head? ≠ some false
      ∧ (h.published = true ↔ (w.history i h.id).getLast? = some true)
      ∧ (h.isAcquired = true → (w.history i h.id).getLast? = some true ∧ h.released = false)
      ∧ (∀ actions w' p', (w.release i h.id).run? actions = some w' →
          w'.participants[i]? = some p' →
            ∀ h' ∈ p'.manager.handles, h'.id = h.id → h'.isAcquired = false)
      ∧ ∀ name, .applied (.release name h.id) ∈ w.notesOf i →
          (w.history i h.id = [] ∨ (w.history i h.id).getLast? = some false)
            ∧ ∀ actions w', w.run? actions = some w' → w'.history i h.id = w.history i h.id := by
  have recorded := reachable.recorded present
  obtain ⟨chain, head⟩ := recorded.heard.alternates h.id
  have shown : h.published = true ↔ (w.history i h.id).getLast? = some true := by
    rw [recorded.heard.shown h member, latest_iff, history]
  refine ⟨chain, head, shown, ?_, ?_, ?_⟩
  · intro acquired
    simp only [Handle.isAcquired, Bool.and_eq_true, Bool.not_eq_true'] at acquired
    exact ⟨shown.mp acquired.2, acquired.1⟩
  · intro actions w' p' run present'
    exact reachable.never_acquired present member run present'
  · intro name applied
    obtain ⟨gone, last⟩ := recorded.parted name h.id applied
    constructor
    · cases final : (w.history i h.id).getLast? with
      | none => exact .inl (List.getLast?_eq_none_iff.mp final)
      | some flag =>
        rw [latest, ← history, final] at last
        exact .inr (congrArg some last)
    · intro actions w' run
      exact reachable.history_of_gone present gone run

/-- A run in which a row disappears from the store and is claimed again, each time when the next handle
    is created, until its handle is released. -/
def upsAndDowns : List Action :=
  .start 0 :: turn 0 (.attempt 0) 4 ++ .create 0 "x" :: turn 0 .worker 8
    ++ .use 0 .dropSchema :: .create 0 "y" :: turn 0 .worker 8
    ++ .create 0 "z" :: turn 0 .worker 8 ++ .release 0 0 :: turn 0 .worker 4

theorem events_alternate_upsAndDowns : ∃ (w : World) (p : Participant) (h : Handle),
    w.Reachable ∧ w.participants[0]? = some p ∧ h ∈ p.manager.handles
      ∧ .applied (.release "x" h.id) ∈ w.notesOf 0
      ∧ w.history 0 h.id = [true, false, true, false]
      ∧ (w.history 0 h.id).IsChain (· ≠ ·) ∧ h.isAcquired = false
      ∧ ∀ actions w', w.run? actions = some w' → w'.history 0 h.id = w.history 0 h.id := by
  have reachable : World.Reachable _ :=
    ⟨(World.initial 0 [.freshMemory]).join "a" ⟨.ofMillis 8, true⟩ 0 {}, upsAndDowns,
      .join (.initial _ _) _ _ _ _, rfl⟩
  have all := events_alternate reachable (i := 0) rfl List.mem_cons_self
  have applied := all.2.2.2.2.2 "x" (List.mem_of_getElem? (i := 80) rfl)
  exact ⟨_, _, _, reachable, rfl, List.mem_cons_self, List.mem_of_getElem? (i := 80) rfl, rfl, all.1,
    rfl, applied.2⟩

end World

end Leasehold
