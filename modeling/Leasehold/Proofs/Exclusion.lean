import Leasehold.Proofs.Backing

/-! # Exclusion of several managers

Managers with different owner ids share a store. `World.Guarded` collects what holds at every moment,
whatever becomes of the calls that they wait for, if no call that was given up is carried out late; from
it, `World.Guarded.late_of_both`: two managers hold the same lease only if somebody's clock has passed
the point up to which one of them has it confirmed.
-/

namespace Leasehold

theorem ClockSetting.reading_mono (c : ClockSetting) {t t' : Int} (le : t ≤ t') :
    c.reading t ≤ c.reading t' := by
  unfold reading
  cases c.frozen with
  | none => exact Reading.clamp_mono (by simpa using Reading.clamp_mono le)
  | some still => exact le_rfl

namespace Manager

variable {m m' : Manager} {s : Surroundings} {store b : Backend} {notes : List Note}

theorem Move.frame (move : m.Move s store m' b notes) :
    m'.owner = m.owner ∧ m'.settings = m.settings := by
  rcases move.work_cases with ⟨w, r, _, _, rfl, _, _⟩ | aside
  · rw [publishAll_eq]
    exact ⟨rfl, rfl⟩
  · exact ⟨aside.owner, aside.settings⟩

theorem Aside.held (aside : Aside s store m m' b notes) (modest : m.Modest) (keyed : store.Keyed) :
    b.held = store.held := by
  rcases aside.store with rfl | ⟨call, caller, awaits, _, rfl⟩
  · rfl
  · rcases call.finish_held caller s.trueTime keyed with same | ⟨done, _⟩
    · exact same
    · exact done.trans (modest.effect awaits _)

theorem Move.held_cases (move : m.Move s store m' b notes) (modest : m.Modest)
    (sound : ∀ w, m.worker = some w → w.Sound s) (keyed : store.Keyed) :
    b.held = store.held
      ∨ ∃ r : Request, r.MadeBy s.owner s.clock ∧ b.held = r.effect store.held := by
  rcases move.work_cases with ⟨w, r, present, step, _, rfl, _⟩ | aside
  · rcases step.held_cases keyed with same | ⟨call, called, done⟩
    · exact .inl same
    · exact .inr ⟨call.request, (sound w present).madeBy called, done⟩
  · exact .inl (aside.held modest keyed)

theorem Move.keyed (move : m.Move s store m' b notes) (keyed : store.Keyed) : b.Keyed := by
  rcases move.work_cases with ⟨w, r, _, step, _, rfl, _⟩ | aside
  · exact step.keyed keyed
  · rcases aside.store with rfl | ⟨call, caller, _, _, rfl⟩
    · exact keyed
    · exact Call.keyed_finish _ _ _ keyed

theorem Move.sound (move : m.Move s store m' b notes) (sound : ∀ w, m.worker = some w → w.Sound s)
    {k : Worker} (present : m'.worker = some k) : k.Sound s :=
  move.worker_keeps (Worker.sound_fresh s) (fun _ aborted sound => sound.abort aborted)
    (fun _ _ _ step sound => sound.move step) sound present

/-- Leases stay backed in every move, if they do in the steps of the worker. -/
theorem Move.backed_of_step {lost lost' stale stale' : String → Int → Prop}
    (move : m.Move s store m' b notes) (modest : m.Modest) (keyed : store.Keyed)
    (backed : ∀ w, m.worker = some w → w.BackedExcept s.owner store.held lost stale)
    (aside : Aloof notes → (∀ name point, lost name point → lost' name point)
      ∧ ∀ name point, stale name point → stale' name point)
    (step : ∀ w r, m.worker = some w → w.Move s m.queue store r → notes = r.notes →
      r.worker.BackedExcept s.owner r.store.held lost' stale')
    {k : Worker} (present : m'.worker = some k) : k.BackedExcept s.owner b.held lost' stale' := by
  rcases move.work_cases with ⟨w, r, there, moved, rfl, rfl, noted⟩ | others
  · rw [publishAll_eq] at present
    cases present
    exact step w r there moved noted
  · rw [others.held modest keyed]
    obtain ⟨w, aborted, there | rfl, rfl⟩ := others.worker k present
    · obtain ⟨more, older⟩ := aside others.aloof
      exact ((backed w there).later more older).abort aborted
    · exact Worker.backed_fresh aborted

theorem Move.backed {late : Int → Prop} (move : m.Move s store m' b notes) (modest : m.Modest)
    (sound : ∀ w, m.worker = some w → w.Sound s) (keyed : store.Keyed)
    (past : ∀ point, point < s.clock → late point)
    (backed : ∀ w, m.worker = some w → w.Backed s.owner store.held late)
    {k : Worker} (present : m'.worker = some k) : k.Backed s.owner b.held late :=
  move.backed_of_step modest keyed backed (fun _ => ⟨fun _ _ => id, fun _ _ => id⟩)
    (fun w _ there step _ => (backed w there).move (sound w there) keyed past step) present

end Manager

namespace World

variable {w w' : World} {i : Nat} {p : Participant} {m : Manager} {b : Backend} {notes : List Note}

/-! ## Who has changed -/

theorem Moved.participant_cases (moved : w.Moved i p m b notes w') {j : Nat} {q : Participant}
    (there : w'.participants[j]? = some q) :
    j = i ∧ q = { p with manager := m } ∨ j ≠ i ∧ w.participants[j]? = some q := by
  rw [moved.participants, List.getElem?_set] at there
  by_cases same : i = j
  · subst same
    have inside := (List.getElem?_eq_some_iff.mp moved.present).1
    simp only [if_true, inside, Option.some.injEq] at there
    exact .inl ⟨rfl, there.symm⟩
  · rw [if_neg same] at there
    exact .inr ⟨Ne.symm same, there⟩

theorem Moved.mem_cases (moved : w.Moved i p m b notes w') {q : Participant}
    (inside : q ∈ w'.participants) :
    q = { p with manager := m } ∨ ∃ j, j ≠ i ∧ w.participants[j]? = some q := by
  obtain ⟨j, there⟩ := List.mem_iff_getElem?.mp inside
  rcases moved.participant_cases there with ⟨_, eq⟩ | ⟨ne, old⟩
  · exact .inl eq
  · exact .inr ⟨j, ne, old⟩

theorem storeOf_congr (w : World) {q : Participant} (same : q.store = p.store) :
    w.storeOf q = w.storeOf p := by
  simp [storeOf, same]

theorem SameMatter.storeOf (same : w.SameMatter w') (p : Participant) : w'.storeOf p = w.storeOf p := by
  simp [World.storeOf, same.stores]

theorem SameMatter.trueTime (same : w.SameMatter w') : w'.trueTime = w.trueTime := by
  simp [World.trueTime, same.now, same.epoch]

theorem SameMatter.surroundings (same : w.SameMatter w') (p : Participant) :
    w'.surroundings p = w.surroundings p := by
  simp [World.surroundings, same.trueTime, same.now]

theorem Moved.trueTime (moved : w.Moved i p m b notes w') : w'.trueTime = w.trueTime := by
  simp [World.trueTime, moved.now, moved.epoch]

theorem Moved.storeOf_same (moved : w.Moved i p m b notes w') (placed : p.store < w.stores.length)
    {q : Participant} (same : q.store = p.store) : w'.storeOf q = b := by
  simp [storeOf, moved.stores, same, placed]

theorem Moved.storeOf_other (moved : w.Moved i p m b notes w') {q : Participant}
    (other : q.store ≠ p.store) : w'.storeOf q = w.storeOf q := by
  simp [storeOf, moved.stores, Ne.symm other]

theorem Moved.surroundings (moved : w.Moved i p m b notes w') (q : Participant) :
    w'.surroundings q = w.surroundings q := by
  simp [World.surroundings, moved.trueTime, moved.now]

theorem storeOf_use (w : World) {n : Nat} (other : p.store ≠ n) (request : Request) :
    (w.use n request).storeOf p = w.storeOf p := by
  unfold World.use
  split
  · rfl
  · simp [storeOf, note, setStore, List.getElem?_set_ne (Ne.symm other)]

theorem Landed.storeOf_other {place : Nat} {stray : Stray} {q : Participant}
    (landed : w.Landed place stray q b w') (other : p.store ≠ q.store) :
    w'.storeOf p = w.storeOf p := by
  rw [landed.eq]
  simp [storeOf, World.landed, note, setStore, List.getElem?_set_ne (Ne.symm other)]

theorem Change.stays {a : Action} (change : w.Change a w') {j : Nat} {q' : Participant}
    (present' : w'.participants[j]? = some q') :
    ∃ q, w.participants[j]? = some q ∧ q'.store = q.store
      ∧ (q'.clock = q.clock ∨ ∃ clock, a = .setClock j clock) := by
  cases change with
  | move moved =>
    rcases moved.participant_cases present' with ⟨rfl, rfl⟩ | ⟨_, old⟩
    · exact ⟨_, moved.present, rfl, .inl rfl⟩
    · exact ⟨q', old, rfl, .inl rfl⟩
  | rest same => exact ⟨q', same.participants ▸ present', rfl, .inl rfl⟩
  | tick quiet => exact ⟨q', present', rfl, .inl rfl⟩
  | setLink k link =>
    obtain ⟨q, _, old, rfl⟩ := setLink_participant present'
    exact ⟨q, old, rfl, .inl rfl⟩
  | setClock k clock =>
    obtain ⟨q, c, old, rfl, same | rfl⟩ := setClock_participant present'
    · exact ⟨q, old, rfl, .inl same⟩
    · exact ⟨q, old, rfl, .inr ⟨clock, rfl⟩⟩
  | use store request => exact ⟨q', w.participants_use store request ▸ present', rfl, .inl rfl⟩
  | land landed => exact ⟨q', landed.participants ▸ present', rfl, .inl rfl⟩

theorem Change.keeps_link {a : Action} (change : w.Change a w') {p' : Participant}
    (unset : ∀ link, a ≠ .setLink i link) (present' : w'.participants[i]? = some p') :
    ∃ p, w.participants[i]? = some p ∧ p'.link = p.link := by
  cases change with
  | move moved =>
    rcases moved.participant_cases present' with ⟨rfl, rfl⟩ | ⟨_, old⟩
    · exact ⟨_, moved.present, rfl⟩
    · exact ⟨p', old, rfl⟩
  | rest same => exact ⟨p', same.participants ▸ present', rfl⟩
  | tick quiet => exact ⟨p', present', rfl⟩
  | setLink j link =>
    simp only [World.setLink, List.getElem?_modify] at present'
    obtain ⟨p, present, rfl⟩ := Option.map_eq_some_iff.mp present'
    refine ⟨p, present, ?_⟩
    rw [if_neg (fun own => unset link (by rw [own]))]
  | setClock j clock =>
    obtain ⟨p, c, present, rfl, _⟩ := setClock_participant present'
    exact ⟨p, present, rfl⟩
  | use store request => exact ⟨p', w.participants_use store request ▸ present', rfl⟩
  | land landed => exact ⟨p', landed.participants ▸ present', rfl⟩

theorem Change.length_stores {a : Action} (change : w.Change a w') :
    w'.stores.length = w.stores.length := by
  cases change with
  | move moved => rw [moved.stores, List.length_set]
  | rest same => rw [same.stores]
  | tick | setLink | setClock => rfl
  | use store request =>
    unfold World.use
    split
    · rfl
    · simp [note, setStore]
  | land landed =>
    rw [landed.eq]
    simp [World.landed, note, setStore]

/-- Time passes by quiet milliseconds only. -/
theorem Change.time_cases {a : Action} (change : w.Change a w') :
    w'.now = w.now ∧ w'.trueTime = w.trueTime ∨ w.isQuiet = true ∧ w' = w.elapse 1 := by
  cases change with
  | move moved => exact .inl ⟨moved.now, moved.trueTime⟩
  | rest same => exact .inl ⟨same.now, same.trueTime⟩
  | tick quiet => exact .inr ⟨quiet, rfl⟩
  | setLink | setClock => exact .inl ⟨rfl, rfl⟩
  | use store request =>
    unfold World.use
    split <;> exact .inl ⟨rfl, rfl⟩
  | land landed =>
    rw [landed.eq]
    exact .inl ⟨rfl, rfl⟩

/-! ## What holds at every moment -/

/-- Somebody who uses this store has a clock that is past the point. -/
def Late (w : World) (store : Nat) (point : Int) : Prop :=
  ∃ q ∈ w.participants, q.store = store ∧ point < q.clock.reading w.trueTime

/-- No two managers have the same owner id. -/
def Distinct (w : World) : Prop := ∀ (i j : Nat) (p q : Participant), w.participants[i]? = some p →
  w.participants[j]? = some q → p.manager.owner = q.manager.owner → i = j

/-- Managers with different owner ids ask for what they should, and their leases are backed. -/
structure Guarded (w : World) : Prop where
  keyed : ∀ b ∈ w.stores, b.Keyed
  placed : ∀ p ∈ w.participants, p.store < w.stores.length
  owners : w.Distinct
  modest : ∀ p ∈ w.participants, p.manager.Modest
  sound : ∀ p ∈ w.participants, ∀ k, p.manager.worker = some k → k.Sound (w.surroundings p)
  backed : ∀ p ∈ w.participants, ∀ k, p.manager.worker = some k →
    k.Backed p.manager.owner (w.storeOf p).held (w.Late p.store)

theorem storeOf_mem {p : Participant} (placed : p.store < w.stores.length) :
    w.storeOf p ∈ w.stores := by
  simp [storeOf, placed]

theorem Guarded.keyed_storeOf (h : w.Guarded) (member : p ∈ w.participants) :
    (w.storeOf p).Keyed := h.keyed _ (storeOf_mem (h.placed p member))

/-- A beginning with managers of different owner ids and the stores that they use. -/
structure Opening (w : World) : Prop where
  begins : w.Begins
  keyed : ∀ b ∈ w.stores, b.Keyed
  placed : ∀ p ∈ w.participants, p.store < w.stores.length
  owners : w.Distinct

theorem Opening.no_worker (opening : w.Opening) (member : p ∈ w.participants) :
    p.manager.worker = none := by
  obtain ⟨owner, settings, eq⟩ := opening.begins.manager_fresh member
  rw [eq]
  rfl

theorem Opening.guarded (opening : w.Opening) : w.Guarded := by
  refine ⟨opening.keyed, opening.placed, opening.owners, fun p member => ?_,
    fun p member k present => ?_, fun p member k present => ?_⟩
  · obtain ⟨owner, settings, eq⟩ := opening.begins.manager_fresh member
    rw [eq]
    exact Manager.modest_fresh owner settings
  · simp [opening.no_worker member] at present
  · simp [opening.no_worker member] at present

theorem Moved.late (moved : w.Moved i p m b notes w') {store : Nat} {point : Int}
    (late : w.Late store point) : w'.Late store point := by
  obtain ⟨q, member, uses, past⟩ := late
  obtain ⟨j, there⟩ := List.mem_iff_getElem?.mp member
  by_cases same : i = j
  · subst same
    obtain rfl : p = q := Option.some.inj (moved.present.symm.trans there)
    refine ⟨{ p with manager := m }, ?_, uses, moved.trueTime ▸ past⟩
    rw [moved.participants]
    exact List.mem_set (List.getElem?_eq_some_iff.mp moved.present).1 _
  · refine ⟨q, List.mem_of_getElem? (i := j) ?_, uses, moved.trueTime ▸ past⟩
    rw [moved.participants, List.getElem?_set, if_neg same]
    exact there

theorem late_of_clock (member : p ∈ w.participants) {point : Int}
    (past : point < (w.surroundings p).clock) : w.Late p.store point := ⟨p, member, rfl, past⟩

theorem Guarded.moved (h : w.Guarded) (moved : w.Moved i p m b notes w') : w'.Guarded := by
  have member : p ∈ w.participants := List.mem_of_getElem? moved.present
  have move := moved.move
  have keyed := h.keyed_storeOf member
  have placed := h.placed p member
  obtain ⟨owner, settings⟩ := move.frame
  have backed {k : Worker} (present : m.worker = some k) :
      k.Backed p.manager.owner b.held (w.Late p.store) :=
    move.backed (h.modest p member) (h.sound p member) keyed (fun point => late_of_clock member)
      (h.backed p member) present
  refine ⟨fun b' inside => ?_, fun q inside => ?_, fun j l q r first last same => ?_,
    fun q inside => ?_, fun q inside k present => ?_, fun q inside k present => ?_⟩
  · rw [moved.stores] at inside
    rcases List.mem_or_eq_of_mem_set inside with old | rfl
    · exact h.keyed b' old
    · exact move.keyed keyed
  · rw [moved.stores, List.length_set]
    rcases moved.mem_cases inside with rfl | ⟨j, _, old⟩
    · exact placed
    · exact h.placed q (List.mem_of_getElem? old)
  · rcases moved.participant_cases first with ⟨rfl, rfl⟩ | ⟨_, oldFirst⟩ <;>
      rcases moved.participant_cases last with ⟨rfl, rfl⟩ | ⟨_, oldLast⟩
    · rfl
    · exact h.owners _ _ p r moved.present oldLast (owner ▸ same)
    · exact h.owners _ _ q p oldFirst moved.present (same.trans owner)
    · exact h.owners _ _ q r oldFirst oldLast same
  · rcases moved.mem_cases inside with rfl | ⟨j, _, old⟩
    · exact (h.modest p member).move move
    · exact h.modest q (List.mem_of_getElem? old)
  · rw [moved.surroundings]
    rcases moved.mem_cases inside with rfl | ⟨j, _, old⟩
    · exact (move.sound (h.sound p member) present).later owner settings le_rfl
    · exact h.sound q (List.mem_of_getElem? old) k present
  · rcases moved.mem_cases inside with rfl | ⟨j, ne, old⟩
    · have mine : w'.storeOf { p with manager := m } = b := moved.storeOf_same placed rfl
      rw [mine]
      change k.Backed m.owner b.held (w'.Late p.store)
      rw [owner]
      exact (backed present).later fun point => moved.late
    · have inside := List.mem_of_getElem? old
      have before := h.backed q inside k present
      by_cases same : q.store = p.store
      · rw [moved.storeOf_same placed same]
        rw [w.storeOf_congr same] at before
        rcases move.held_cases (h.modest p member) (h.sound p member) keyed with eq | ⟨r, made, eq⟩
        · rw [eq]
          exact before.later fun point => moved.late
        · rw [eq]
          refine Worker.Backed.later (before.foreign (made.foreign ?_) ?_) fun point => moved.late
          · exact fun eq => ne (h.owners _ _ q p old moved.present eq)
          · rintro now rfl _ point past
            exact same ▸ late_of_clock member (lt_of_lt_of_le past made)
      · rw [moved.storeOf_other same]
        exact before.later fun point => moved.late

/-- What the surroundings of a manager are made of may change with the way to the store and with
    time. -/
theorem Guarded.frame (h : w.Guarded) (stores : w'.stores = w.stores) (trueTime : w.trueTime ≤ w'.trueTime)
    (participants : ∀ (j : Nat) (q' : Participant), w'.participants[j]? = some q' →
      ∃ q, w.participants[j]? = some q ∧ q'.manager = q.manager ∧ q'.store = q.store
        ∧ q'.clock = q.clock)
    (all : ∀ q ∈ w.participants, ∃ q' ∈ w'.participants, q'.store = q.store ∧ q'.clock = q.clock) :
    w'.Guarded := by
  have origin {q' : Participant} (inside : q' ∈ w'.participants) : ∃ q ∈ w.participants,
      q'.manager = q.manager ∧ q'.store = q.store ∧ q'.clock = q.clock := by
    obtain ⟨j, there⟩ := List.mem_iff_getElem?.mp inside
    obtain ⟨q, before, same⟩ := participants j q' there
    exact ⟨q, List.mem_of_getElem? before, same⟩
  have forward {q q' : Participant} (clock : q'.clock = q.clock) :
      q.clock.reading w.trueTime ≤ q'.clock.reading w'.trueTime := by
    rw [clock]
    exact q.clock.reading_mono trueTime
  have late {store : Nat} (point : Int) (late : w.Late store point) : w'.Late store point := by
    obtain ⟨q, member, uses, past⟩ := late
    obtain ⟨q', member', store_eq, clock⟩ := all q member
    exact ⟨q', member', store_eq.trans uses, lt_of_lt_of_le past (forward clock)⟩
  refine ⟨fun b inside => h.keyed b (stores ▸ inside), fun q' inside => ?_,
    fun j l q' r' first last same => ?_, fun q' inside => ?_, fun q' inside k present => ?_,
    fun q' inside k present => ?_⟩
  · obtain ⟨q, member, _, store, _⟩ := origin inside
    rw [store, stores]
    exact h.placed q member
  · obtain ⟨q, before, manager, _⟩ := participants j q' first
    obtain ⟨r, before', manager', _⟩ := participants l r' last
    exact h.owners j l q r before before' (manager ▸ manager' ▸ same)
  · obtain ⟨q, member, manager, _, _⟩ := origin inside
    exact manager ▸ h.modest q member
  · obtain ⟨q, member, manager, _, clock⟩ := origin inside
    refine (h.sound q member k (manager ▸ present)).later ?_ ?_ ?_
    · exact congrArg Manager.owner manager
    · exact congrArg Manager.settings manager
    · exact forward clock
  · obtain ⟨q, member, manager, store, clock⟩ := origin inside
    have before := h.backed q member k (manager ▸ present)
    have same : w'.storeOf q' = w.storeOf q := by simp [storeOf, stores, store]
    rw [same, manager, store]
    exact before.later late

/-- Actions that leave clocks alone and rows to the managers and to the calls that they wait for. -/
def Action.Steady : Action → Prop
  | .setClock _ _ | .use _ _ | .land _ => False
  | _ => True

instance : DecidablePred Action.Steady
  | .setClock _ _ | .use _ _ | .land _ => .isFalse id
  | .start _ | .list _ | .create _ _ | .release _ _ | .stop _ | .abandon _ | .setLink _ _ | .pick _
  | .proceed _ | .tick => .isTrue trivial

theorem trueTime_elapse (w : World) (millis : Nat) : w.trueTime ≤ (w.elapse millis).trueTime :=
  Reading.clamp_mono (by simp only [elapse]; omega)

theorem Guarded.change (h : w.Guarded) {a : Action} (steady : a.Steady) (change : w.Change a w') :
    w'.Guarded := by
  cases change with
  | move moved => exact h.moved moved
  | rest same =>
    refine h.frame same.stores ?_ (fun j q' there => ?_) fun q member => ?_
    · exact le_of_eq same.trueTime.symm
    · exact ⟨q', same.participants ▸ there, rfl, rfl, rfl⟩
    · exact ⟨q, same.participants ▸ member, rfl, rfl⟩
  | tick quiet =>
    exact h.frame rfl (w.trueTime_elapse 1) (fun j q' there => ⟨q', there, rfl, rfl, rfl⟩)
      fun q member => ⟨q, member, rfl, rfl⟩
  | setLink i link =>
    refine h.frame rfl le_rfl (fun j q' there => ?_) fun q member => ?_
    · obtain ⟨q, _, before, rfl⟩ := setLink_participant there
      exact ⟨q, before, rfl, rfl, rfl⟩
    · obtain ⟨j, before⟩ := List.mem_iff_getElem?.mp member
      refine ⟨if i = j then { q with link } else q, ?_, ?_⟩
      · refine List.mem_of_getElem? (i := j) ?_
        simp [World.setLink, List.getElem?_modify, before]
      · split <;> exact ⟨rfl, rfl⟩
  | setClock i clock => exact steady.elim
  | use store request => exact steady.elim
  | land landed => exact steady.elim

/-- Two managers hold the same lease only if somebody's clock has passed the point up to which one of
    them has it confirmed. -/
theorem Guarded.late_of_both (h : w.Guarded) {i j : Nat} {p q : Participant} (ne : i ≠ j)
    (there : w.participants[i]? = some p) (there' : w.participants[j]? = some q)
    (shared : p.store = q.store) {k l : Worker} (worker : p.manager.worker = some k)
    (worker' : q.manager.worker = some l) {name : String} {slot slot' : Slot}
    (found : k.slots.find? name = some slot) (acquired : slot.acquired = true)
    (found' : l.slots.find? name = some slot') (acquired' : slot'.acquired = true) :
    (∃ point, k.confirmedUntil = some point ∧ w.Late p.store point)
      ∨ ∃ point, l.confirmedUntil = some point ∧ w.Late q.store point := by
  have backed := h.backed p (List.mem_of_getElem? there) k worker
  have backed' := h.backed q (List.mem_of_getElem? there') l worker'
  obtain ⟨point, known, ⟨e, _, row⟩ | late⟩ := backed.backed name slot found acquired
  · obtain ⟨point', known', ⟨e', _, row'⟩ | late⟩ := backed'.backed name slot' found' acquired'
    · rw [w.storeOf_congr shared.symm, row] at row'
      have owner : p.manager.owner = q.manager.owner :=
        congrArg Holding.owner (Option.some.inj row')
      exact absurd (h.owners i j p q there there' owner) ne
    · exact .inr ⟨point', known', late⟩
  · exact .inl ⟨point, known, late⟩

/-! ## Leases and handles -/

/-- The manager holds this lease for its handle of this number. -/
def Holds (w : World) (i : Nat) (name : String) (id : Nat) : Prop :=
  ∃ p k, w.participants[i]? = some p ∧ p.manager.worker = some k ∧ k.slots.holds name id = true

/-- A running manager shows this handle as acquired. -/
def Shown (w : World) (i : Nat) (h : Handle) : Prop :=
  ∃ p, w.participants[i]? = some p ∧ p.manager.lifecycle = .running ∧ h ∈ p.manager.handles
    ∧ h.isAcquired = true

theorem Reachable.holds_of_shown (reachable : w.Reachable) {h : Handle} (shown : w.Shown i h) :
    w.Holds i h.name h.id := by
  obtain ⟨p, there, running, member, acquired⟩ := shown
  have inside : p ∈ w.participants := List.mem_of_getElem? there
  obtain ⟨k, present⟩ := Option.isSome_iff_exists.mp ((reachable.staged inside).running running).1
  refine ⟨p, k, there, present, ?_⟩
  rw [← (reachable.truthful inside).shown k present h member]
  exact (Bool.and_eq_true_iff.mp acquired).2

end World

end Leasehold
