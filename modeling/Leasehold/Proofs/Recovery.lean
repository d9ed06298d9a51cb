import Leasehold.Proofs.Events
import Leasehold.Proofs.Setback

/-! # One failed cycle

All calls of a manager are answered at once, except that one cycle fails, no later than half a grace
window after it began. If its rows have been refreshed by then, no lease is lost. If they have not been,
they end one lease after the cycle before, and the next cycle comes two pauses and the delay after that
one: the leases are safe if this fits into a lease, that is, if the lease can be halved and the call fails
at once.
-/

namespace Leasehold

namespace Manager

variable {m m' : Manager} {s s' : Surroundings} {store b : Backend} {notes : List Note} {mark : Int}
  {begun delay : Nat}

/-- Until the cycle begins that fails, a manager keeps its pace; from then on, its rows last until the
    next cycle. -/
structure Enduring (s : Surroundings) (store : Backend) (mark : Int) (begun delay : Nat) (m : Manager) :
    Prop where
  staged : m.Staged
  attended : m.Attended
  ready : m.worker.isSome = true → store.isReady = true
  paced : s.now < begun → m.Paced s
  lagging : begun ≤ s.now → m.Lagging s store mark begun delay

theorem enduring_fresh (owner : String) (settings : Settings) :
    (fresh owner settings).Enduring s store mark begun delay where
  staged := staged_fresh owner settings
  attended := attended_of_none rfl
  ready there := by simp [fresh] at there
  paced _ := paced_of_none rfl
  lagging _ := lagging_of_none rfl

theorem Paced.prompt (h : m.Paced s) (timed : s.Timed mark begun delay) (before : s.now < begun)
    {w : Worker} (present : m.worker = some w) (mild : w.Mild s mark begun delay) {call : Call}
    (called : w.call? = some call) : call.Prompt s.now := by
  rcases mild.cases with prompt | ⟨c, cycling, fails⟩
  · exact prompt call called
  · have current := h.cycling w c present cycling
    have marked := timed.mark
    have writes := fails.writes
    omega

theorem Paced.lagging (h : m.Paced s) (timed : s.Timed mark begun delay) (now : s.now = begun)
    (waiting : ∀ w, m.worker = some w → w.activity = .waiting)
    (backed : ∀ w, m.worker = some w → w.Backed s.owner store.held (· < s.clock)) :
    m.Lagging s store mark begun delay := by
  have ⟨marked, room, fits, whole, least, most, half, grace, short⟩ := timed
  refine ⟨fun w there => ⟨fun point known => ?_, fun c cycling => ?_, fun c cycling => ?_,
    fun call due called => ?_⟩, fun w sc wake there there' sleeps => ?_,
    fun w name slot there found acquired => ?_⟩
  · have recent := h.confirmed w point there known
    omega
  · simp [waiting w there] at cycling
  · simp [waiting w there] at cycling
  · simp [Worker.call?, waiting w there] at called
  · exact (h.sleeping w sc wake there there' sleeps).1
  · obtain ⟨point, known, past⟩ := (backed w there).backed name slot found acquired
    have recent := h.confirmed w point there known
    obtain ⟨e, lasts, row⟩ := past.resolve_right (by omega)
    refine ⟨e, ⟨by omega, by omega, fun sc there' done => ?_, fun sc wake there' sleeps => ?_⟩, row⟩
    · have current := h.acknowledged w sc there there' done
      cases known.symm.trans current
      omega
    · have long := (h.sleeping w sc wake there there' sleeps).2 point known
      omega

theorem Enduring.foreign (h : m.Enduring s store mark begun delay)
    (keeps : ∀ name e, s.clock ≤ e → store.held name = some ⟨s.owner, e⟩ →
      b.held name = some ⟨s.owner, e⟩)
    (ready : store.isReady = true → b.isReady = true) : m.Enduring s b mark begun delay :=
  ⟨h.staged, h.attended, fun there => ready (h.ready there), h.paced,
    fun after => (h.lagging after).foreign keeps⟩

theorem Enduring.relink (h : m.Enduring s store mark begun delay) (link : Link) :
    m.Enduring { s with link } store mark begun delay := by
  refine ⟨h.staged, h.attended, h.ready, fun before => ?_, fun after => ?_⟩
  · obtain ⟨cycling, confirmed, acknowledged, sleeping⟩ := h.paced before
    exact ⟨cycling, confirmed, acknowledged, sleeping⟩
  · obtain ⟨braced, waking, rows⟩ := h.lagging after
    refine ⟨fun w there => ?_, waking, fun w name slot there found acquired => ?_⟩
    · obtain ⟨confirmed, written, patient, punctual⟩ := braced w there
      exact ⟨confirmed, written, patient, punctual⟩
    · obtain ⟨e, ⟨recent, live, acknowledged, sleeping⟩, row⟩ := rows w name slot there found acquired
      exact ⟨e, ⟨recent, live, acknowledged, sleeping⟩, row⟩

section Calls

variable (h : m.Enduring s store mark begun delay) (timed : s.Timed mark begun delay)
  (mild : ∀ w, m.worker = some w → w.Mild s mark begun delay)
  (backed : ∀ w, m.worker = some w → w.Backed s.owner store.held (· < s.clock))

include h timed backed

theorem Enduring.covered {w : Worker} (present : m.worker = some w) :
    w.Covered s.owner store.held := by
  intro name slot found acquired
  rcases Nat.lt_or_ge s.now begun with before | after
  · obtain ⟨point, known, past⟩ := (backed w present).backed name slot found acquired
    have recent := (h.paced before).confirmed w point present known
    have ⟨_, _, _, _, least, _, half, _, _⟩ := timed
    obtain ⟨e, _, row⟩ := past.resolve_right (by omega)
    exact ⟨e, row⟩
  · obtain ⟨e, _, row⟩ := (h.lagging after).rows w name slot present found acquired
    exact ⟨e, row⟩

include mild

theorem Enduring.lossless (move : m.Move s store m' b notes)
    (sound : ∀ w, m.worker = some w → w.Sound s) (keyed : store.Keyed) (balanced : m.Balanced)
    (truthful : m.Truthful) : Worker.Lossless notes := by
  rcases move.work_cases with ⟨w, r, present, step, _, _, rfl⟩ | aside
  · refine step.lossless (sound w present) (h.ready (by simp [present])) keyed
      (h.covered timed backed present) (truthful.slots_keyed present) (balanced.admits_slots present) ?_
    rcases Nat.lt_or_ge s.now begun with before | after
    · exact .inl fun call => (h.paced before).prompt timed before present (mild w present)
    · refine (mild w present).cases.imp id fun ⟨c, cycling, fails⟩ => ?_
      have bears := ((h.lagging after).braced w present).bears timed cycling fails
      exact ⟨c, cycling, fails.fate, bears.2⟩
  · exact Worker.lossless_of_quiet aside.quiet

theorem Enduring.move (move : m.Move s store m' b notes) (modest : m.Modest)
    (sound : ∀ w, m.worker = some w → w.Sound s) (keyed : store.Keyed)
    (settings : m.settings = s.settings) (enabled : m.settings.enabled = true) :
    m'.Enduring s b mark begun delay where
  staged := h.staged.move move
  attended := h.attended.move h.staged modest move
  ready := move.stays_ready h.staged modest sound enabled h.ready
  paced before := (h.paced before).move move h.staged modest sound settings timed.fits
    (fun w _ there => (h.paced before).prompt timed before there (mild w there)) h.ready
  lagging after := (h.lagging after).move timed after move h.staged modest settings keyed sound h.ready
    backed mild

theorem Enduring.tick (timed' : s'.Timed mark begun delay) (rests : m.Resting s store)
    (now : s'.now = s.now + 1) (clock : s'.clock = s.clock + 1) (settings : s'.settings = s.settings)
    (owner : s'.owner = s.owner) : m.Enduring s' store mark begun delay := by
  have paced (before : s.now < begun) : m.Paced s' := by
    have paced := h.paced before
    exact paced.tick rests h.staged h.attended
      (fun w _ there => paced.prompt timed before there (mild w there)) now clock settings
  refine ⟨h.staged, h.attended, h.ready, fun _ => paced (by omega), fun after' => ?_⟩
  rcases Nat.lt_or_ge s.now begun with before | after
  · refine (paced before).lagging timed' (by omega) (fun w there => ?_) fun w there => ?_
    · have prompt (call : Call) (called : w.call? = some call) : call.Prompt s.now :=
        (h.paced before).prompt timed before there (mild w there) called
      exact (rests.sleeping h.staged h.attended there prompt).1
    · rw [owner]
      exact (backed w there).later fun point past => by omega
  · exact (h.lagging after).tick timed rests h.staged h.attended mild now clock settings owner

end Calls

end Manager

namespace World

variable {start w w' : World} {a : Action} {actions : List Action} {i j : Nat} {p q : Participant}
  {m : Manager} {b : Backend} {notes : List Note} {link : Link} {millis begun delay : Nat}

/-- What a participant writes in a cycle that begins at this time. -/
def expirationAt (w : World) (p : Participant) (time : Nat) : Int :=
  w.epoch + time + p.clock.offset + p.manager.settings.leaseMillis

/-- What the participant sees of clock and store: no reading stops at the end of the range, and calls
    are answered at once except in the cycle that began at `begun`. -/
structure Gentle (w : World) (i : Nat) (begun delay : Nat) : Prop where
  ranged : ∀ p, w.participants[i]? = some p → Reading.InRange (w.epoch + w.now)
    ∧ Reading.InRange (w.epoch + w.now + p.clock.offset)
    ∧ Reading.InRange (w.expirationAt p w.now)
  calls : ∀ p k, w.participants[i]? = some p → p.manager.worker = some k →
    k.Mild (w.surroundings p) (w.expirationAt p begun) begun delay

instance (w : World) (i begun delay : Nat) : Decidable (w.Gentle i begun delay) :=
  decidable_of_iff
    ((∀ p ∈ w.participants[i]?, Reading.InRange (w.epoch + w.now)
        ∧ Reading.InRange (w.epoch + w.now + p.clock.offset)
        ∧ Reading.InRange (w.expirationAt p w.now))
      ∧ ∀ p ∈ w.participants[i]?, ∀ k ∈ p.manager.worker,
        k.Mild (w.surroundings p) (w.expirationAt p begun) begun delay)
    ⟨fun h => ⟨h.1, fun p k present => h.2 p present k⟩,
      fun h => ⟨h.ranged, fun p present k => h.calls p k present⟩⟩

/-- True of every world that a run comes through. -/
def Throughout (Q : World → Prop) : World → List Action → Prop
  | w, [] => Q w
  | w, a :: actions => Q w ∧ ∀ next ∈ w.act? a, Throughout Q next actions

instance decidableThroughout {Q : World → Prop} [DecidablePred Q] :
    (w : World) → (actions : List Action) → Decidable (Throughout Q w actions)
  | w, [] => inferInstanceAs (Decidable (Q w))
  | w, a :: actions =>
    have (next : World) : Decidable (Throughout Q next actions) := decidableThroughout next actions
    inferInstanceAs (Decidable (Q w ∧ ∀ next ∈ w.act? a, Throughout Q next actions))

theorem Throughout.first {Q : World → Prop} (through : Throughout Q w actions) : Q w := by
  cases actions with
  | nil => exact through
  | cons a actions => exact through.1

/-- What steady actions preserve between worlds of one kind holds at the end of a run through such
    worlds. -/
theorem run?_through {P Q : World → Prop}
    (step : ∀ v a v', Q v → Q v' → P v → a.Steady → v.act? a = some v' → P v')
    (through : Throughout Q start actions) (steady : ∀ a ∈ actions, a.Steady)
    (run : start.run? actions = some w) (first : P start) : Q w ∧ P w := by
  induction actions generalizing start with
  | nil =>
    cases run
    exact ⟨through, first⟩
  | cons a actions ih =>
    obtain ⟨next, act, run⟩ := Option.bind_eq_some_iff.mp run
    obtain ⟨here, rest⟩ := through
    have later := rest next act
    exact ih later (fun a' member => steady a' (List.mem_cons_of_mem _ member)) run
      (step start a next here later.first first (steady a List.mem_cons_self) act)

/-- A manager whose peers have the same clock, in the course of such a run. -/
structure Sheltered (w : World) (i millis begun delay : Nat) (p : Participant) : Prop where
  present : w.participants[i]? = some p
  guarded : w.Guarded
  settings : p.manager.settings = .ofMillis millis
  running : p.clock.frozen = none
  peers : ∀ q ∈ w.participants, q.store = p.store → q.clock = p.clock
  enduring : p.manager.Enduring (w.surroundings p) (w.storeOf p) (w.expirationAt p begun) begun delay
  /-- Every loss was the application of a release. -/
  blameless : ∀ id, false ∈ w.history i id → ∃ name, .applied (.release name id) ∈ w.notesOf i

theorem Gentle.timed (gentle : w.Gentle i begun delay) (inside : Reading.InRange millis)
    (least : 4 ≤ millis) (short : 8 * delay ≤ millis) (present : w.participants[i]? = some p)
    (running : p.clock.frozen = none) (same : p.manager.settings = .ofMillis millis) :
    (w.surroundings p).Timed (w.expirationAt p begun) begun delay := by
  obtain ⟨time, clock, far⟩ := gentle.ranged p present
  have reading := reading_of_range running time clock
  have now : (w.surroundings p).now = w.now := rfl
  have settings : (w.surroundings p).settings = .ofMillis millis := same
  have lease : (w.surroundings p).settings.leaseMillis = millis := by
    rw [settings, Settings.leaseMillis_ofMillis inside]
  have pause : Manager.pause (w.surroundings p) = (millis + 1) / 2 := by
    rw [Manager.pause, settings, Settings.ceilMillis_interval_ofMillis]
  have grace := settings ▸ Settings.graceMillis_ofMillis_le millis
  have whole : (w.surroundings p).settings.leaseDuration.ceilMillis = millis := by
    rw [settings]
    exact Duration.ceilMillis_ofMillis millis
  have written (time : Nat) : w.expirationAt p time = w.epoch + time + p.clock.offset + millis := by
    rw [expirationAt, ← lease]
    rfl
  rw [written] at far ⊢
  have most := inside.2
  unfold Reading.InRange at far
  refine ⟨?_, ?_, Reading.add_eq ?_, ?_, ?_, ?_, ?_, ?_, ?_⟩
  · omega
  · omega
  · rw [lease, reading]
    exact far
  · omega
  · omega
  · omega
  · omega
  · omega
  · omega

theorem Sheltered.backed (h : w.Sheltered i millis begun delay p) {k : Worker}
    (there : p.manager.worker = some k) :
    k.Backed (w.surroundings p).owner (w.storeOf p).held (· < (w.surroundings p).clock) := by
  refine (h.guarded.backed p (List.mem_of_getElem? h.present) k there).later fun point late => ?_
  obtain ⟨q, member, shared, past⟩ := late
  rwa [h.peers q member shared] at past

theorem blameless_append {past : List Note}
    (blameless : ∀ id, false ∈ told id past → ∃ name, .applied (.release name id) ∈ past)
    (lossless : Worker.Lossless notes) (id : Nat) (lost : false ∈ told id (past ++ notes)) :
    ∃ name, .applied (.release name id) ∈ past ++ notes := by
  rw [told_append] at lost
  rcases List.mem_append.mp lost with before | now
  · obtain ⟨name, applied⟩ := blameless id before
    exact ⟨name, List.mem_append_left _ applied⟩
  · obtain ⟨e, told, flag⟩ := List.mem_map.mp now
    obtain ⟨inside, number⟩ := List.mem_filter.mp told
    rcases lossless with gains | ⟨name, id', rfl⟩
    · cases flag.symm.trans (gains e inside)
    · obtain rfl : (id', false) = e := by simpa [eventsIn, Note.event?] using inside
      obtain rfl : id' = id := by simpa using number
      exact ⟨name, List.mem_append_right _ (by simp)⟩

theorem Sheltered.foreign (h : w.Sheltered i millis begun delay p) (other : j ≠ i)
    (moved : w.Moved j q m b notes w') : w'.Sheltered i millis begun delay p := by
  have member' := List.mem_of_getElem? moved.present
  have mark : w'.expirationAt p begun = w.expirationAt p begun := by simp [expirationAt, moved.epoch]
  have past := notesOf_of_lines moved.journal i
  rw [if_neg other, List.append_nil] at past
  refine ⟨?_, h.guarded.moved moved, h.settings, h.running, fun q' inside shared => ?_, ?_, ?_⟩
  · rw [moved.participants, List.getElem?_set_ne other]
    exact h.present
  · rcases moved.mem_cases inside with rfl | ⟨_, _, old⟩
    · exact h.peers q member' shared
    · exact h.peers q' (List.mem_of_getElem? old) shared
  · rw [moved.surroundings, mark]
    by_cases shared : p.store = q.store
    · rw [moved.storeOf_same (h.guarded.placed q member') shared]
      have modest := h.guarded.modest q member'
      have sound := h.guarded.sound q member'
      refine h.enduring.foreign (fun name e live row => ?_) fun ready => ?_
      · rw [w.storeOf_congr shared] at row
        rcases moved.move.held_cases modest sound (h.guarded.keyed_storeOf member')
          with same | ⟨r, made, done⟩
        · exact same ▸ row
        · have ne : p.manager.owner ≠ q.manager.owner := fun eq =>
            other (h.guarded.owners i j p q h.present moved.present eq).symm
          have clock : (w.surroundings q).clock = (w.surroundings p).clock :=
            congrArg (·.reading w.trueTime) (h.peers q member' shared.symm)
          rw [done]
          exact (made.keeps ne row).resolve_right (by omega)
      · rw [w.storeOf_congr shared] at ready
        exact moved.move.isReady modest sound ready
    · rw [moved.storeOf_other shared]
      exact h.enduring
  · simp only [history, past]
    exact h.blameless

theorem Sheltered.relink (h : w.Sheltered i millis begun delay p)
    (guarded : (w.setLink j link).Guarded) :
    ∃ p', (w.setLink j link).Sheltered i millis begun delay p' := by
  have peers (q' : Participant) (inside : q' ∈ (w.setLink j link).participants)
      (shared : q'.store = p.store) : q'.clock = p.clock := by
    obtain ⟨l, there⟩ := List.mem_iff_getElem?.mp inside
    obtain ⟨q, _, before, rfl⟩ := setLink_participant there
    exact h.peers q (List.mem_of_getElem? before) shared
  have there : (w.setLink j link).participants[i]?
      = some (if j = i then { p with link } else p) := by
    simp [World.setLink, List.getElem?_modify, h.present]
  by_cases own : j = i
  · rw [if_pos own] at there
    exact ⟨_, there, guarded, h.settings, h.running, peers, h.enduring.relink _, h.blameless⟩
  · rw [if_neg own] at there
    exact ⟨p, there, guarded, h.settings, h.running, peers, h.enduring, h.blameless⟩

section Steps

variable (inside : Reading.InRange millis) (least : 4 ≤ millis) (short : 8 * delay ≤ millis)
  (h : w.Sheltered i millis begun delay p) (gentle : w.Gentle i begun delay)

include inside least short h gentle

theorem Sheltered.own (reachable : w.Reachable) (moved : w.Moved i p m b notes w') :
    w'.Sheltered i millis begun delay { p with manager := m } := by
  have timed := gentle.timed inside least short h.present h.running h.settings
  have member := List.mem_of_getElem? h.present
  have placed := h.guarded.placed p member
  have sound := h.guarded.sound p member
  have keyed := h.guarded.keyed_storeOf member
  have mild (k : Worker) := gentle.calls p k h.present
  obtain ⟨owner, settings⟩ := moved.move.frame
  have same : w'.surroundings { p with manager := m } = w.surroundings p := by
    rw [moved.surroundings]
    simp [World.surroundings, owner, settings]
  have mark : w'.expirationAt { p with manager := m } begun = w.expirationAt p begun := by
    simp [expirationAt, moved.epoch, settings]
  refine ⟨?_, h.guarded.moved moved, settings.trans h.settings, h.running, fun q inside shared => ?_,
    ?_, fun id lost => ?_⟩
  · rw [moved.participants, List.getElem?_set_self (List.getElem?_eq_some_iff.mp h.present).1]
  · rcases moved.mem_cases inside with rfl | ⟨_, _, old⟩
    · rfl
    · exact h.peers q (List.mem_of_getElem? old) shared
  · have mine : w'.storeOf { p with manager := m } = b := moved.storeOf_same placed rfl
    rw [same, mark, mine]
    exact h.enduring.move timed mild (fun k => h.backed) moved.move (h.guarded.modest p member) sound
      keyed rfl (by simp [h.settings, Settings.ofMillis])
  · have lossless := h.enduring.lossless timed mild (fun k => h.backed) moved.move sound keyed
      (reachable.balanced member) (reachable.truthful member)
    have grown := notesOf_of_lines moved.journal i
    rw [if_pos rfl] at grown
    rw [history, grown] at lost
    rw [grown]
    exact blameless_append h.blameless lossless id lost

theorem Sheltered.tick (quiet : w.isQuiet = true) (gentle' : (w.elapse 1).Gentle i begun delay)
    (guarded : (w.elapse 1).Guarded) : (w.elapse 1).Sheltered i millis begun delay p := by
  have timed := gentle.timed inside least short h.present h.running h.settings
  have timed' := gentle'.timed inside least short h.present h.running h.settings
  have placed := h.guarded.placed p (List.mem_of_getElem? h.present)
  have rests := resting_of_quiet quiet h.present placed
  have mild (k : Worker) := gentle.calls p k h.present
  have clock : ((w.elapse 1).surroundings p).clock = (w.surroundings p).clock + 1 := by
    obtain ⟨time, inside, _⟩ := gentle.ranged p h.present
    obtain ⟨time', inside', _⟩ := gentle'.ranged p h.present
    rw [reading_of_range h.running time inside, reading_of_range h.running time' inside']
    simp only [elapse]
    push_cast
    omega
  exact ⟨h.present, guarded, h.settings, h.running, h.peers,
    h.enduring.tick timed mild (fun k => h.backed) timed' rests rfl clock rfl rfl, h.blameless⟩

theorem Sheltered.change (reachable : w.Reachable) (gentle' : w'.Gentle i begun delay)
    (steady : a.Steady) (change : w.Change a w') : ∃ p', w'.Sheltered i millis begun delay p' := by
  have guarded := h.guarded.change steady change
  cases change with
  | @move _ j q m b notes _ moved =>
    by_cases own : j = i
    · subst own
      obtain rfl := Option.some.inj (h.present.symm.trans moved.present)
      exact ⟨_, h.own inside least short gentle reachable moved⟩
    · exact ⟨p, h.foreign own moved⟩
  | rest same =>
    refine ⟨p, same.participants ▸ h.present, guarded, h.settings, h.running, ?_, ?_, ?_⟩
    · rw [same.participants]
      exact h.peers
    · have mark : w'.expirationAt p begun = w.expirationAt p begun := by simp [expirationAt, same.epoch]
      rw [same.surroundings, same.storeOf, mark]
      exact h.enduring
    · simp only [history, notesOf_of_journal same.journal]
      exact h.blameless
  | tick quiet => exact ⟨p, h.tick inside least short gentle quiet gentle' guarded⟩
  | setLink j link => exact h.relink guarded
  | setClock | use | land => exact steady.elim

end Steps

/-- One failed cycle costs no lease if its rows have been refreshed before, or if two pauses and the
    delay fit into a lease: no handle that has not been given up is ever told of a loss, and every lease
    that is held has a row in the store. -/
theorem survives_failed_cycle (opening : start.Opening) (steady : ∀ a ∈ actions, a.Steady)
    (present : start.participants[i]? = some p) (settings : p.manager.settings = .ofMillis millis)
    (valid : p.manager.settings.validate = .ok ()) (inside : Reading.InRange millis)
    (running : p.clock.frozen = none)
    (peers : ∀ q ∈ start.participants, q.store = p.store → q.clock = p.clock)
    (short : 8 * delay ≤ millis) (gentle : Throughout (·.Gentle i begun delay) start actions)
    (run : start.run? actions = some w) :
    ∃ p', w.participants[i]? = some p'
      ∧ (∀ h ∈ p'.manager.handles, h.released = false → false ∉ w.history i h.id)
      ∧ ∀ name id, w.Holds i name id →
          ∃ e, ⟨name, p'.manager.owner, e⟩ ∈ (w.storeOf p').rows := by
  have least : 4 ≤ millis := by
    rw [settings] at valid
    unfold Settings.validate at valid
    split at valid
    · cases valid
    · rename_i long
      simp only [Settings.ofMillis, Settings.shortestLease, Duration.ofMillis] at long
      simp only [Duration.nanosPerMilli] at long
      omega
  have step (v : World) (a : Action) (v' : World) (gentle : v.Gentle i begun delay)
      (gentle' : v'.Gentle i begun delay)
      (before : v.Reachable ∧ ∃ p, v.Sheltered i millis begun delay p) (steady : a.Steady)
      (act : v.act? a = some v') :
      v'.Reachable ∧ ∃ p, v'.Sheltered i millis begun delay p := by
    obtain ⟨reachable, p, sheltered⟩ := before
    have one : v.run? [a] = some v' := by simp [run?, act]
    exact ⟨reachable.run one, sheltered.change inside least short gentle reachable gentle' steady
      (change_of_act? act)⟩
  have first : start.Reachable ∧ ∃ p, start.Sheltered i millis begun delay p := by
    obtain ⟨owner, settings', fresh⟩ := opening.begins.manager_fresh (List.mem_of_getElem? present)
    refine ⟨⟨start, [], opening.begins, rfl⟩, p, present, opening.guarded, settings, running, peers,
      ?_, fun id lost => ?_⟩
    · rw [fresh]
      exact Manager.enduring_fresh owner settings'
    · simp [history, told, notesOf, opening.begins.journal_nil, eventsIn] at lost
  obtain ⟨gentle', reachable, p', sheltered⟩ := run?_through step gentle steady run first
  have member := List.mem_of_getElem? sheltered.present
  refine ⟨p', sheltered.present, fun h inside held lost => ?_, fun name id holds => ?_⟩
  · obtain ⟨name, applied⟩ := sheltered.blameless h.id lost
    cases held.symm.trans (reachable.released_of_applied sheltered.present inside applied)
  · obtain ⟨q, k, there, worker, flag⟩ := holds
    obtain rfl := Option.some.inj (sheltered.present.symm.trans there)
    obtain ⟨slot, found, _, acquired⟩ := (Slots.holds_iff _ _ _).mp flag
    have timed := gentle'.timed inside least short sheltered.present sheltered.running sheltered.settings
    obtain ⟨e, row⟩ :=
      sheltered.enduring.covered timed (fun k => sheltered.backed) worker name slot found acquired
    exact ⟨e, (Backend.mem_rows_iff (sheltered.guarded.keyed_storeOf member) _).mpr row⟩

/-- A single manager. -/
def solo : Fleet where
  epoch := 0
  store := .freshMemory
  millis := 8
  members := [⟨"a", 0⟩]
  keyed := MemoryStore.keyed_empty
  distinct := by decide
  near := by decide

/-- A lease is acquired, and in the next cycle the calls of one kind fail after a millisecond. Another
    cycle follows. -/
def setback (operation : Operation) (moves : Nat) : List Action :=
  .start 0 :: turn 0 (.attempt 0) 4 ++ .create 0 "x" :: turn 0 .scheduler 2 ++ turn 0 .worker 9
    ++ turn 0 .scheduler 2 ++ List.replicate 4 .tick
    ++ .setLink 0 { failing := [operation], delays := [(operation, 1)] } :: turn 0 .scheduler 3
    ++ turn 0 .worker moves ++ .tick :: turn 0 .worker 2 ++ .setLink 0 .clear :: turn 0 .scheduler 2
    ++ List.replicate 4 .tick ++ turn 0 .scheduler 3 ++ turn 0 .worker 6

theorem survives_failed_cycle_setback : ∃ (w : World) (p : Participant) (e : Int),
    solo.founded.Opening ∧ (∀ a ∈ setback .selectOwned 5, a.Steady)
    ∧ Throughout (·.Gentle 0 4 1) solo.founded (setback .selectOwned 5)
    ∧ solo.founded.run? (setback .selectOwned 5) = some w ∧ w.participants[0]? = some p
    ∧ .cycleEnded false ∈ w.notesOf 0 ∧ w.Holds 0 "x" 0 ∧ false ∉ w.history 0 0
    ∧ ⟨"x", p.manager.owner, e⟩ ∈ (w.storeOf p).rows := by
  have steady : ∀ a ∈ setback .selectOwned 5, a.Steady := by decide
  have gentle : Throughout (·.Gentle 0 4 1) solo.founded (setback .selectOwned 5) := by decide +kernel
  have present : solo.founded.participants[0]? = some _ := rfl
  have run : solo.founded.run? (setback .selectOwned 5) = some _ := rfl
  obtain ⟨p, there, told, rows⟩ := survives_failed_cycle solo.founded_opening steady present rfl
    (by decide) (by decide) rfl (by decide) (by decide) gentle run
  cases there
  suffices after : .cycleEnded false ∈ World.notesOf _ 0 ∧ World.Holds _ 0 "x" 0 by
    obtain ⟨failed, holds⟩ := after
    obtain ⟨e, row⟩ := rows "x" 0 holds
    exact ⟨_, _, e, solo.founded_opening, steady, gentle, run, rfl, failed, holds,
      told _ List.mem_cons_self rfl, row⟩
  exact ⟨List.mem_of_getElem? (i := 46) rfl, _, _, rfl, rfl, by rfl⟩

/-- The same failure before the refresh: the row ends at 8, the next cycle comes at 9. -/
example : (solo.founded.run? (setback .deleteExpired 3)).map (·.history 0 0) = some [true, false] := by
  rfl

end World

end Leasehold
