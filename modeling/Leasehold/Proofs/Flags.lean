import Leasehold.Proofs.Ledger

/-! # Flags of handles

A handle shows the flag that the worker published last. `Manager.Truthful` says that this is what the
worker's slot says: the events of a step are exactly those of the slots that change, every slot
belongs to the handle of its number, and no slot is ever replaced by another.
-/

namespace Leasehold

/-- What a handle shows after some events if it showed `shown` before. -/
def flagAfter (id : Nat) (shown : Bool) (events : List (Nat × Bool)) : Bool :=
  events.foldl (fun flag e => if e.1 = id then e.2 else flag) shown

/-- The events among some notes. -/
def eventsIn (notes : List Note) : List (Nat × Bool) := notes.filterMap Note.event?

theorem eventsIn_append (notes notes' : List Note) :
    eventsIn (notes ++ notes') = eventsIn notes ++ eventsIn notes' := List.filterMap_append

theorem Handle.published_hear (notes : List Note) (h : Handle) :
    (notes.foldl Handle.hear h).published = flagAfter h.id h.published (eventsIn notes) := by
  induction notes generalizing h with
  | nil => rfl
  | cons note notes ih =>
    rw [List.foldl_cons, ih]
    cases note with
    | event name id acquired =>
      by_cases own : h.id = id
      · simp [hear, own, eventsIn, Note.event?, flagAfter]
      · simp [hear, own, Ne.symm own, eventsIn, Note.event?, flagAfter]
    | _ => rfl

theorem flagAfter_of_same {id : Nat} {flag : Bool} {events : List (Nat × Bool)}
    (same : ∀ e ∈ events, e.1 = id → e.2 = flag) (shown : Bool) :
    flagAfter id shown events = if ∃ e ∈ events, e.1 = id then flag else shown := by
  induction events generalizing shown with
  | nil => simp [flagAfter]
  | cons e events ih =>
    have rest := ih fun e member => same e (List.mem_cons_of_mem _ member)
    have first := same e List.mem_cons_self
    have step : flagAfter id shown (e :: events)
        = flagAfter id (if e.1 = id then e.2 else shown) events := rfl
    rw [step, rest]
    by_cases own : e.1 = id
    · simp [own, first own]
    · simp [own]

namespace Slots

/-- Whether a handle holds its lease. -/
def holds (slots : Slots) (name : String) (id : Nat) : Bool :=
  (slots.find? name).any fun slot => slot.id = id && slot.acquired

theorem holds_iff (slots : Slots) (name : String) (id : Nat) : slots.holds name id = true
    ↔ ∃ slot, slots.find? name = some slot ∧ slot.id = id ∧ slot.acquired = true := by
  simp [holds, Option.any_eq_true]

/-- Only the handle with this name can have this number. -/
def Own (slots : Slots) (name : String) (id : Nat) : Prop :=
  ∀ other slot, slots.find? other = some slot → slot.id = id → other = name

theorem holds_of_free {slots : Slots} {name : String} (free : slots.find? name = none) (id : Nat) :
    slots.holds name id = false := by
  simp [holds, free]

/-- Events that tell a handle the flag that its slot is given, whenever that changes. -/
theorem flagAfter_assign {slots : Slots} {f : String → Bool} {name : String} {id : Nat}
    {events : List (Nat × Bool)}
    (sound : ∀ e ∈ events, e.1 = id → e.2 = f name ∧ ∃ slot, slots.find? name = some slot ∧ slot.id = id)
    (complete : ∀ slot, slots.find? name = some slot → slot.id = id → slot.acquired ≠ f name →
      ∃ e ∈ events, e.1 = id) :
    flagAfter id (slots.holds name id) events = (slots.assign f).holds name id := by
  rw [flagAfter_of_same fun e member own => (sound e member own).1]
  cases found : slots.find? name with
  | none =>
    have quiet : ¬ ∃ e ∈ events, e.1 = id := by
      rintro ⟨e, member, own⟩
      obtain ⟨_, slot, there, _⟩ := sound e member own
      simp [found] at there
    simp [quiet, holds, find?_assign, found]
  | some slot =>
    by_cases own : slot.id = id
    · by_cases told : ∃ e ∈ events, e.1 = id
      · simp [told, holds, find?_assign, found, own]
      · have same : slot.acquired = f name := by
          by_contra changes
          exact told (complete slot found own changes)
        rw [if_neg told]
        simp [holds, find?_assign, found, own, same]
    · have quiet : ¬ ∃ e ∈ events, e.1 = id := by
        rintro ⟨e, member, same⟩
        obtain ⟨_, other, there, number⟩ := sound e member same
        rw [found] at there
        exact own (Option.some.inj there ▸ number)
      simp [quiet, holds, find?_assign, found, own]

/-- No name has two slots. -/
def Keyed (slots : Slots) : Prop := (slots.ledger.map (·.1)).Nodup

theorem find?_of_mem {slots : Slots} (keyed : slots.Keyed) {name : String} {slot : Slot}
    (member : (name, slot) ∈ slots) : slots.find? name = some slot := by
  refine Keyed.lookup_of_mem ?_ member
  rw [Slots.Keyed, ledger, List.map_map] at keyed
  exact keyed

theorem mem_changing {slots : Slots} {f : String → Bool} {c : String × Slot} :
    c ∈ slots.changing f ↔ c ∈ slots ∧ c.2.acquired ≠ f c.1 := by
  simp [changing]

theorem Own.changing {slots : Slots} {f : String → Bool} {name : String} {id : Nat}
    (own : slots.Own name id) (keyed : slots.Keyed) {c : String × Slot} (changing : c ∈ slots.changing f)
    (number : c.2.id = id) : slots.find? name = some c.2 ∧ c.2.acquired ≠ f name := by
  obtain ⟨there, changes⟩ := mem_changing.mp changing
  have found := find?_of_mem keyed there
  have named := own c.1 c.2 found number
  rw [named] at found changes
  exact ⟨found, changes⟩

end Slots

namespace Worker

variable {w : Worker} {s : Surroundings} {queue : List Command} {store : Backend}

theorem eventsIn_eventsOf (changed : Slots) (acquired : Bool) :
    eventsIn (eventsOf changed acquired) = changed.map fun c => (c.2.id, acquired) := by
  simp [eventsIn, eventsOf, List.filterMap_map, Function.comp_def, Note.event?]

theorem eventsIn_logs (slots : Slots) (log : String × Slot → Note)
    (quiet : ∀ c, (log c).event? = none) : eventsIn (slots.map log) = [] := by
  simp [eventsIn, List.filterMap_map, quiet]

theorem eventsIn_finish (c : Call) (caller : Caller) (trueTime : Int) (store : Backend) :
    eventsIn (c.finish caller trueTime store).2.2 = [] := by
  rw [eventsIn, List.filterMap_eq_nil_iff]
  intro note member
  rcases Call.mem_finish member with rfl | ⟨_, rfl⟩ | ⟨_, rfl⟩ | ⟨_, _, _, rfl⟩ <;> rfl

theorem eventsIn_acknowledge (tickets : List Nat) : eventsIn (acknowledge tickets) = [] := by
  simp [eventsIn, acknowledge, List.filterMap_map, Function.comp_def, Note.event?]

theorem eventsIn_giveUp (w : Worker) (s : Surroundings) : eventsIn (w.giveUp s).2
    = if w.mustGiveUp s then (w.slots.changing fun _ => false).map fun c => (c.2.id, false)
      else [] := by
  cases due : w.mustGiveUp s with
  | false => rw [giveUp_of_safe due]; rfl
  | true =>
    simp only [giveUp, due, if_true, eventsIn_append, eventsIn_eventsOf]
    rw [eventsIn_logs _ _ fun _ => rfl, List.append_nil]

theorem eventsIn_failCycle (w : Worker) (s : Surroundings) (label : String) (c : Cycle)
    (e : LeaseError) : eventsIn (w.failCycle s label c e).2 = eventsIn (w.giveUp s).2 := by
  have rest : (w.failCycle s label c e).2 = .log .warn "Lease maintenance cycle failed"
      [("owner", s.owner), ("store", label), ("error", e.message)]
      :: ((w.giveUp s).2 ++ (.cycleEnded false :: acknowledge c.tickets)) := rfl
  rw [rest]
  change eventsIn ((w.giveUp s).2 ++ ([.cycleEnded false] ++ acknowledge c.tickets)) = _
  rw [eventsIn_append, eventsIn_append, eventsIn_acknowledge]
  simp [eventsIn, Note.event?]

theorem eventsIn_endRelease (w : Worker) (s : Surroundings) (r : Releasing)
    (result : Except LeaseError Reply) : eventsIn (w.endRelease s r result).2 = [] := by
  have quiet : (releaseLog s r.name result).event? = none := by
    unfold releaseLog
    split
    · split <;> rfl
    · rfl
  change List.filterMap _ [releaseLog s r.name result] = []
  simp [quiet]

theorem eventsIn_purge (w : Worker) (s : Surroundings) (c : Cycle) (names : List String) :
    eventsIn (w.purge s c names).2 = [] := by
  cases names with
  | nil => exact eventsIn_acknowledge c.tickets
  | cons name rest => rfl

theorem eventsIn_reconcile (w : Worker) (s : Surroundings) (owned : List String)
    (expiration : Int) : eventsIn (w.reconcile s owned expiration).2
      = ((w.slots.changing owned.contains).filter fun c => !c.2.acquired).map
          (fun c => (c.2.id, true))
        ++ ((w.slots.changing owned.contains).filter fun c => c.2.acquired).map
          fun c => (c.2.id, false) := by
  simp only [reconcile, eventsIn_append, eventsIn_eventsOf]
  rw [eventsIn_logs _ _ fun _ => rfl, eventsIn_logs _ _ fun _ => rfl, List.append_nil,
    List.append_nil]

theorem resume_of_selecting {c : Cycle} {reply : Reply} (selecting : c.stage = .selecting) :
    (w.resume s c reply).2 = (w.reconcile s reply.nameList c.expiration).2
      ++ ((w.reconcile s reply.nameList c.expiration).1.purge s c (w.orphans reply.nameList)).2 := by
  simp [resume, selecting]

theorem eventsIn_resume {c : Cycle} {reply : Reply} (other : c.stage ≠ .selecting) :
    eventsIn (w.resume s c reply).2 = [] := by
  unfold resume
  split
  · simp only
    split <;> rfl
  · simp only
    split <;> rfl
  · rfl
  · contradiction
  · exact w.eventsIn_purge s c _

/-- What a worker makes of its slots and what it tells about them go together. -/
def Tells (w : Worker) (name : String) (id : Nat) (w' : Worker) (notes : List Note) : Prop :=
  flagAfter id (w.slots.holds name id) (eventsIn notes) = w'.slots.holds name id

theorem tells_of_quiet {name : String} {id : Nat} {w' : Worker} {notes : List Note}
    (slots : w'.slots = w.slots) (quiet : eventsIn notes = []) : w.Tells name id w' notes := by
  rw [Tells, slots, quiet]
  rfl

theorem tells_giveUp (keyed : w.slots.Keyed) {name : String} {id : Nat} (own : w.slots.Own name id) :
    w.Tells name id (w.giveUp s).1 (w.giveUp s).2 := by
  rw [Tells, eventsIn_giveUp]
  cases due : w.mustGiveUp s with
  | false =>
    rw [giveUp_of_safe due]
    rfl
  | true =>
    rw [giveUp_of_due due, if_pos rfl]
    change _ = (w.slots.assign fun _ => false).holds name id
    refine Slots.flagAfter_assign ?_ ?_
    · intro e member same
      obtain ⟨c, changing, rfl⟩ := List.mem_map.mp member
      exact ⟨rfl, c.2, (own.changing keyed changing same).1, same⟩
    · intro slot found same changes
      refine ⟨(slot.id, false), List.mem_map.mpr ⟨(name, slot), ?_, rfl⟩, same⟩
      exact Slots.mem_changing.mpr ⟨Keyed.mem_of_lookup found, changes⟩

theorem tells_reconcile (keyed : w.slots.Keyed) {name : String} {id : Nat}
    (own : w.slots.Own name id) (owned : List String) (expiration : Int) :
    w.Tells name id (w.reconcile s owned expiration).1 (w.reconcile s owned expiration).2 := by
  rw [Tells, eventsIn_reconcile]
  refine Slots.flagAfter_assign ?_ ?_
  · intro e member same
    rcases List.mem_append.mp member with gained | lost
    · obtain ⟨c, inside, rfl⟩ := List.mem_map.mp gained
      obtain ⟨changing, off⟩ := List.mem_filter.mp inside
      obtain ⟨found, changes⟩ := own.changing keyed changing same
      refine ⟨?_, c.2, found, same⟩
      simpa [show c.2.acquired = false by simpa using off] using changes
    · obtain ⟨c, inside, rfl⟩ := List.mem_map.mp lost
      obtain ⟨changing, on⟩ := List.mem_filter.mp inside
      obtain ⟨found, changes⟩ := own.changing keyed changing same
      refine ⟨?_, c.2, found, same⟩
      simpa [show c.2.acquired = true from on] using changes
  · intro slot found same changes
    have changing : (name, slot) ∈ w.slots.changing owned.contains :=
      Slots.mem_changing.mpr ⟨Keyed.mem_of_lookup found, changes⟩
    cases flag : slot.acquired with
    | false =>
      refine ⟨(slot.id, true), List.mem_append_left _ (List.mem_map.mpr ⟨(name, slot), ?_, rfl⟩), same⟩
      exact List.mem_filter.mpr ⟨changing, by simp [flag]⟩
    | true =>
      refine ⟨(slot.id, false), List.mem_append_right _ (List.mem_map.mpr ⟨(name, slot), ?_, rfl⟩), same⟩
      exact List.mem_filter.mpr ⟨changing, flag⟩

theorem tells_apply {name : String} {id : Nat} (own : w.slots.Own name id) {c : Command} (b : Batch)
    (fits : c.Fits w.slots.ledger) : w.Tells name id (w.apply c b).1 (w.apply c b).2 := by
  cases c with
  | register other number =>
    have free := Slots.find?_of_fits fits
    have quiet : (w.apply (.register other number) b).2 = [] := by simp [apply, register, free]
    rw [Tells, quiet]
    change w.slots.holds name id = (w.slots.insert other ⟨number, false⟩).holds name id
    by_cases same : name = other
    · rw [same, Slots.holds_of_free free, Slots.holds, Slots.find?_insert_self]
      simp
    · simp [Slots.holds, Slots.find?_insert_of_ne _ _ same]
  | release other number =>
    rw [Command.Fits, Slots.lookup_ledger] at fits
    obtain ⟨slot, found, number_eq⟩ := Option.map_eq_some_iff.mp fits
    have erased : (w.apply (.release other number) b).1.slots = w.slots.erase other := by
      simp [apply, release, found, number_eq]
    have told : eventsIn (w.apply (.release other number) b).2
        = if slot.acquired then [(slot.id, false)] else [] := by
      simp only [apply, release, found, number_eq, if_true]
      split <;> rfl
    rw [Tells, erased, told]
    by_cases same : name = other
    · have gone : (w.slots.erase other).holds name id = false :=
        Slots.holds_of_free (same ▸ w.slots.find?_erase_self other) id
      rw [gone, Slots.holds, same, found]
      cases flag : slot.acquired <;> by_cases mine : slot.id = id <;> simp [flagAfter, mine, flag]
    · have kept : (w.slots.erase other).holds name id = w.slots.holds name id := by
        rw [Slots.holds, Slots.find?_erase_of_ne w.slots same, ← Slots.holds]
      have foreign : slot.id ≠ id := fun mine => same (own other slot found mine).symm
      rw [kept]
      cases slot.acquired <;> simp [flagAfter, foreign]
  | maintain ticket => exact tells_of_quiet rfl rfl

/-- A step of a worker tells every handle what becomes of its slot. -/
theorem Move.tells {r : WorkerStep} (h : w.Move s queue store r) (keyed : w.slots.Keyed)
    (admits : w.slots.ledger.Admits queue) {name : String} {id : Nat} (own : w.slots.Own name id) :
    w.Tells name id r.worker r.notes := by
  have after {notes notes' : List Note} {w' : Worker} (quiet : eventsIn notes = [])
      (tells : w.Tells name id w' notes') : w.Tells name id w' (notes ++ notes') := by
    rw [Tells, eventsIn_append, quiet]
    exact tells
  cases h with
  | @take c _ _ b listening => exact tells_apply own b admits.1
  | beginCycle draining => exact tells_of_quiet rfl rfl
  | beginRelease parting => exact tells_of_quiet rfl rfl
  | @endRelease _ _ release releasing due =>
    exact after (eventsIn_finish _ _ _ _) (tells_of_quiet rfl (w.eventsIn_endRelease s release _))
  | abandonRelease releasing pending late => exact tells_giveUp keyed own
  | @resume _ _ c reply cycling due answered =>
    refine after (eventsIn_finish _ _ _ _) ?_
    rcases w.resume_eq s c reply with ⟨other, activity, eq⟩ | ⟨selecting, activity, eq⟩
    · exact tells_of_quiet (by rw [eq]) (eventsIn_resume other)
    · rw [Tells, eq, resume_of_selecting selecting, eventsIn_append, eventsIn_purge, List.append_nil]
      exact tells_reconcile keyed own _ _
  | failCycle cycling due failed =>
    refine after (eventsIn_finish _ _ _ _) ?_
    rw [Tells, eventsIn_failCycle]
    exact tells_giveUp keyed own
  | @overrun _ _ c cycling pending late =>
    have tells := tells_giveUp (s := s) keyed own
    rw [Tells] at tells ⊢
    change flagAfter id _ (eventsIn (w.failCycle s store.label c (overdue c)).2) = _
    rw [eventsIn_failCycle]
    exact tells

end Worker

namespace Manager

variable {m m' : Manager} {s : Surroundings} {store : Backend}

/-- Every handle that has been handed out. -/
def handed (m : Manager) : Ledger := m.handles.map fun h => (h.name, h.id)

/-- Every handle shows what the worker's slot of its number says. -/
structure Truthful (m : Manager) : Prop where
  queued : m.queueOpen = true → ∀ name id, .register name id ∈ m.queue → (name, id) ∈ m.handed
  tracked : ∀ e ∈ m.tracked, e ∈ m.handed
  keyed : (m.tracked.map (·.1)).Nodup
  shown : ∀ w, m.worker = some w → ∀ h ∈ m.handles, h.published = w.slots.holds h.name h.id
  hidden : m.worker = none → m.lifecycle ≠ .stopped → ∀ h ∈ m.handles, h.published = false

theorem truthful_fresh (owner : String) (settings : Settings) :
    (fresh owner settings).Truthful := by
  constructor <;> simp [fresh, Manager.tracked]

theorem Truthful.keeps (h : m.Truthful) (keeps : m.Keeps m') : m'.Truthful where
  queued opened := by
    obtain ⟨opened, queue⟩ := keeps.opened opened
    rw [handed, keeps.handles, queue]
    exact h.queued opened
  tracked := by
    rw [keeps.tracked, handed, keeps.handles]
    exact h.tracked
  keyed := by
    rw [keeps.tracked]
    exact h.keyed
  shown w present := by
    rw [keeps.handles]
    rcases keeps.worker with same | aborted
    · exact h.shown w (same ▸ present)
    · rw [present] at aborted
      obtain ⟨w₀, present₀, rfl⟩ := Option.map_eq_some_iff.mp aborted.symm
      exact h.shown w₀ present₀
  hidden none alive := by
    rw [keeps.handles]
    refine h.hidden ?_ fun stopped => alive (keeps.stopped stopped)
    rcases keeps.worker with same | aborted
    · exact same ▸ none
    · rw [none] at aborted
      exact Option.map_eq_none_iff.mp aborted.symm

theorem Truthful.own (h : m.Truthful) (balanced : m.Balanced) {w : Worker}
    (present : m.worker = some w) {k : Handle} (member : k ∈ m.handles) :
    w.slots.Own k.name k.id := by
  intro other slot found number
  have listed : (other, slot.id) ∈ m.tracked := by
    rw [Manager.tracked, present]
    exact List.mem_map.mpr ⟨(other, slot), Keyed.mem_of_lookup found, rfl⟩
  obtain ⟨k', member', same⟩ := List.mem_map.mp (h.tracked _ listed)
  have id : k'.id = k.id := (congrArg Prod.snd same).trans number
  rw [← balanced.handle_eq member' member id]
  exact (congrArg Prod.fst same).symm

theorem Truthful.slots_keyed (h : m.Truthful) {w : Worker} (present : m.worker = some w) :
    w.slots.Keyed := by
  have keyed := h.keyed
  rw [Manager.tracked, present] at keyed
  exact keyed

theorem Truthful.create (h : m.Truthful) (balanced : m.Balanced) (name : String) :
    (m.createHandle name).2.1.Truthful := by
  cases opened : m.queueOpen with
  | false =>
    rw [createHandle_of_closed opened]
    exact h
  | true =>
    cases free : m.registry.active.lookup name with
    | some id =>
      rw [createHandle_of_taken opened (by simp [free])]
      exact h
    | none =>
      rw [createHandle_of_free opened free]
      have more : ∀ e ∈ m.handed, e ∈ (m.handles ++
          [Handle.mk name m.registry.nextId false false]).map fun h => (h.name, h.id) := by
        intro e member
        rw [List.map_append]
        exact List.mem_append_left _ member
      have unused {w : Worker} (present : m.worker = some w) :
          w.slots.holds name m.registry.nextId = false := by
        rw [← Bool.not_eq_true, Slots.holds_iff]
        rintro ⟨slot, found, number, _⟩
        have listed : (name, slot.id) ∈ m.tracked := by
          rw [Manager.tracked, present]
          exact List.mem_map.mpr ⟨(name, slot), Keyed.mem_of_lookup found, rfl⟩
        obtain ⟨k, member, same⟩ := List.mem_map.mp (h.tracked _ listed)
        have id : k.id = m.registry.nextId := (congrArg Prod.snd same).trans number
        exact absurd (balanced.id_lt member) (by omega)
      refine ⟨fun _ other id queued => ?_, fun e member => more e (h.tracked e member), h.keyed,
        fun w present k member => ?_, fun none alive k member => ?_⟩
      · rcases List.mem_append.mp queued with old | new
        · exact more _ (h.queued opened other id old)
        · obtain ⟨rfl, rfl⟩ : other = name ∧ id = m.registry.nextId := by simpa using new
          simp [handed]
      · rcases List.mem_append.mp member with old | new
        · exact h.shown w present k old
        · rw [List.mem_singleton.mp new]
          exact (unused present).symm
      · rcases List.mem_append.mp member with old | new
        · exact h.hidden none alive k old
        · rw [List.mem_singleton.mp new]

theorem Truthful.release (h : m.Truthful) (id : Nat) : (m.releaseHandle id).1.Truthful := by
  rcases m.releaseHandle_cases id with eq | ⟨k, _, _, _, eq⟩
  · rw [eq]
    exact h
  · obtain ⟨registry, more, command, eq'⟩ :=
      unregister_eq { m with handles := giveBack m.handles id } k.name id
    rw [eq, eq']
    have handed : (giveBack m.handles id).map (fun h => (h.name, h.id)) = m.handed :=
      map_giveBack (fun _ => rfl) _ _
    refine ⟨fun opened name number queued => ?_, fun e member => ?_, h.keyed,
      fun w present k' member => ?_, fun none alive k' member => ?_⟩
    · change (name, number) ∈ (giveBack m.handles id).map fun h => (h.name, h.id)
      rw [handed]
      refine h.queued opened name number ?_
      rcases List.mem_append.mp queued with old | new
      · exact old
      · rcases command with rfl | rfl <;> simp at new
    · change e ∈ (giveBack m.handles id).map fun h => (h.name, h.id)
      rw [handed]
      exact h.tracked e member
    · obtain ⟨k₀, inside, _, rfl, _⟩ := mem_giveBack member
      exact h.shown w present k₀ inside
    · obtain ⟨k₀, inside, _, rfl, _⟩ := mem_giveBack member
      exact h.hidden none alive k₀ inside

theorem Truthful.work (h : m.Truthful) (balanced : m.Balanced) {w : Worker} {r : WorkerStep}
    (present : m.worker = some w) (move : w.Move s m.queue store r) :
    (({ m with worker := some r.worker, queue := r.queue }).publishAll r.notes).Truthful := by
  have opened := queueOpen_of_worker present
  have tracked : m.tracked = w.slots.ledger := by simp [Manager.tracked, present]
  have handed : (m.handles.map (r.notes.foldl Handle.hear)).map (fun h => (h.name, h.id))
      = m.handed := map_hear (fun _ _ => rfl) _ _
  have admits : w.slots.ledger.Admits m.queue := tracked ▸ balanced.admitted opened
  rw [publishAll_eq]
  refine ⟨fun _ name id queued => ?_, fun e member => ?_, ?_, ?_, fun stopped => ?_⟩
  · change (name, id) ∈ (m.handles.map (r.notes.foldl Handle.hear)).map fun h => (h.name, h.id)
    rw [handed]
    refine h.queued opened name id ?_
    rcases move.ledger_cases with ⟨_, queue⟩ | ⟨c, queue, _⟩
    · exact queue ▸ queued
    · rw [queue]
      exact List.mem_cons_of_mem _ queued
  · change e ∈ (m.handles.map (r.notes.foldl Handle.hear)).map fun h => (h.name, h.id)
    change e ∈ r.worker.slots.ledger at member
    rw [handed]
    rcases move.ledger_cases with ⟨same, _⟩ | ⟨c, queue, post⟩
    · exact h.tracked e (tracked ▸ same ▸ member)
    · rcases Ledger.mem_post (post ▸ member) with old | rfl
      · exact h.tracked e (tracked ▸ old)
      · refine h.queued opened e.1 e.2 ?_
        rw [queue]
        exact List.mem_cons_self
  · change (r.worker.slots.ledger.map (·.1)).Nodup
    have keyed := h.slots_keyed present
    rcases move.ledger_cases with ⟨same, _⟩ | ⟨c, queue, post⟩
    · rw [same]
      exact keyed
    · rw [post]
      exact Ledger.nodup_post keyed c
  · rintro w' ⟨⟩ k' member
    obtain ⟨k, inside, rfl⟩ := List.mem_map.mp member
    have told := move.tells (h.slots_keyed present) admits (h.own balanced present inside)
    obtain ⟨published, eq⟩ := Handle.hear_eq r.notes k
    rw [Handle.published_hear, h.shown w present k inside, eq]
    exact told
  · cases stopped

theorem Truthful.request (h : m.Truthful) (opened : m.queueOpen = true) (ticket : Option Nat)
    (scheduler : Option Scheduler) :
    ({ m with scheduler, queue := m.queue ++ [.maintain ticket] } : Manager).Truthful where
  queued _ name id queued := by
    rcases List.mem_append.mp queued with old | new
    · exact h.queued opened name id old
    · cases List.mem_singleton.mp new
  tracked := h.tracked
  keyed := h.keyed
  shown := h.shown
  hidden := h.hidden

theorem Truthful.launch (h : m.Truthful) (none : m.worker = none)
    (alive : m.lifecycle ≠ .stopped) (opened : m.queueOpen = true) (scheduler : Option Scheduler) :
    ({ m with lifecycle := .running, worker := some .fresh, scheduler } : Manager).Truthful := by
  refine ⟨fun _ => h.queued opened, nofun, List.nodup_nil, ?_, nofun⟩
  rintro w ⟨⟩ k member
  exact h.hidden none alive k member

/-- Handles tell the truth, whatever happens to their manager. -/
theorem Truthful.move (h : m.Truthful) (staged : m.Staged) (balanced : m.Balanced) {b : Backend}
    {notes : List Note} (move : m.Move s store m' b notes) : m'.Truthful := by
  cases move with
  | create name => exact h.create balanced name
  | release id => exact h.release id
  | stop => exact h.keeps (keeps_stop m)
  | abandon => exact h.keeps (keeps_abandon m)
  | beginStart id => exact h.keeps (keeps_beginStart m id)
  | beginListing id => exact h.keeps (keeps_listings _)
  | worker present move => exact h.work balanced present move
  | request present step listened =>
    exact h.request listened _ _
  | retire present step closed => exact h.keeps keeps_withoutScheduler
  | pace present step => exact ⟨h.queued, h.tracked, h.keyed, h.shown, h.hidden⟩
  | refuse id e => exact h.keeps (keeps_dropAttempt m id)
  | enter idle enabled =>
    exact h.keeps (keeps_setStage (queueOpen_iff.mpr (.inl idle)) fun stopped => by
      simp [idle] at stopped)
  | enterAlone idle disabled =>
    rw [finishStart_of_starting rfl]
    refine Truthful.keeps ?_ (keeps_dropAttempt _ _)
    exact h.launch (staged.worker_none (.inl idle)) (by simp [idle]) (queueOpen_iff.mpr (.inl idle)) _
  | fail present called due e fields _ =>
    exact h.keeps (keeps_failStart (queueOpen_of_attempt present (keepsQueue_of_call? called)))
  | crash present comparing due answered overflows => exact h.keeps (keeps_dropAttempt m _)
  | compare present comparing due answered near =>
    exact h.keeps (keeps_setStage (queueOpen_of_attempt present
      (keepsQueue_of_stage (by simp [comparing]))) fun stopped => stopped)
  | finish present preparing due answered =>
    by_cases starting : m.lifecycle = .starting
    · rw [finishStart_of_starting starting]
      refine Truthful.keeps ?_ (keeps_dropAttempt _ _)
      refine h.launch (staged.worker_none (.inr starting)) (by simp [starting])
        (queueOpen_of_attempt present ?_) _
      exact keepsQueue_of_stage (by simp [preparing])
    · rw [finishStart_of_stopped starting]
      exact h.keeps (keeps_dropAttempt m _)
  | askListing id => exact h.keeps (keeps_listings _)
  | endListing present called due => exact h.keeps (keeps_endListing m _)
  | reapWorker present aborted =>
    refine Truthful.keeps ?_ (keeps_dropQueue _)
    have closed := staged.queueOpen_of_reaped present aborted
    have stopped := staged.stopped_of_worker present aborted
    have tracked : ({ m with worker := none } : Manager).tracked = [] := rfl
    refine ⟨fun opened => ?_, fun e member => ?_, ?_, fun w there => ?_, fun _ alive => ?_⟩
    · simp [closed] at opened
    · simp [tracked] at member
    · simp [tracked]
    · simp at there
    · exact absurd stopped alive
  | reapScheduler present aborted => exact h.keeps keeps_withoutScheduler

end Manager

/-- Every handle that can be reached shows what the worker's slot of its number says. -/
theorem World.Reachable.truthful {w : World} (reachable : w.Reachable) {p : Participant}
    (member : p ∈ w.participants) : p.manager.Truthful := by
  have all : p.manager.Staged ∧ p.manager.Balanced ∧ p.manager.Truthful := by
    refine reachable.manager (P := fun m => m.Staged ∧ m.Balanced ∧ m.Truthful) ?_ ?_ member
    · intro owner settings
      exact ⟨Manager.staged_fresh owner settings, Manager.balanced_fresh owner settings,
        Manager.truthful_fresh owner settings⟩
    · intro m s store m' b notes ⟨staged, balanced, truthful⟩ move
      exact ⟨staged.move move, balanced.move staged move, truthful.move staged balanced move⟩
  exact all.2.2

end Leasehold
