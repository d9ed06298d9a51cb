import Leasehold.Proofs.Deadlines
import Leasehold.Proofs.Orphans

/-! # What becomes of a released lease

The worker drops the slot of a released handle, tells the handle, and asks the store to delete the row; then
it waits for the store, which may do anything (`Worker.Departs`). Only that row can change meanwhile, and
other slots only if the store is too late and the leases are not confirmed for long enough
(`Worker.Forfeits`). A row that is left over is dealt with by the next cycle that goes well: it is deleted if
the name has no slot by then, and belongs to the new handle otherwise (`World.release_end_to_end`).
-/

namespace Leasehold

namespace Worker

/-- The course of a release, from the moment when the command is taken: what has become of the worker, and
    what has happened so far. Between two steps anything may happen to the store and to the way there, and
    the worker may be told to end. -/
inductive Departs (w₀ : Worker) (owner name : String) (id : Nat) : Worker → List Note → Prop where
  | take {b s queue store r} (listening : w₀.batch? = some b)
      (step : w₀.step s (.release name id :: queue) store = some r) : Departs w₀ owner name id r.worker r.notes
  | next {w aborted s queue store notes r} (before : Departs w₀ owner name id w notes)
      (busy : w.batch? = none) (self : s.owner = owner)
      (step : ({ w with aborted } : Worker).step s queue store = some r) :
      Departs w₀ owner name id r.worker (notes ++ r.notes)

variable {w w₀ : Worker} {s : Surroundings} {queue : List Command} {store : Backend} {notes : List Note}
  {r : WorkerStep} {owner name : String} {id : Nat} {b : Batch} {acquired : Bool}

/-- The store has not answered a release in time, and the leases that are held are no longer confirmed for
    a whole grace window. -/
def Forfeits (w : Worker) (s : Surroundings) : Prop :=
  ∃ r point, w.activity = .releasing r ∧ r.call.isDue s.now = false ∧ r.deadline ≤ s.now
    ∧ w.confirmedUntil = some point ∧ Reading.sub point s.settings.graceMillis ≤ s.clock

/-- What happens when the release of a lease is taken from the queue. -/
def departure (name : String) (id : Nat) (acquired : Bool) : List Note :=
  .applied (.release name id) :: if acquired then [.event name id false] else []

theorem step_release (listening : w.batch? = some b) (found : w.slots.find? name = some ⟨id, acquired⟩)
    (s : Surroundings) (queue : List Command) (store : Backend) :
    w.step s (.release name id :: queue) store
      = some ⟨{ w with slots := w.slots.erase name, activity := .parting name b }, queue, store,
        departure name id acquired⟩ := by
  cases activity : w.activity with
  | waiting =>
    simp only [batch?, activity, Option.some.injEq] at listening
    subst listening
    simp [step, activity, apply, release, found, departure]
  | draining b' =>
    simp only [batch?, activity, Option.some.injEq] at listening
    subst listening
    simp [step, activity, apply, release, found, departure]
  | parting | releasing | cycling => simp [batch?, activity] at listening

/-- How far a release has come, and what has happened so far. -/
inductive Departing (w₀ : Worker) (owner name : String) (id : Nat) (acquired : Bool) (w : Worker)
    (notes : List Note) : Prop where
  | parting (b : Batch) (parting : w.activity = .parting name b) (told : notes = departure name id acquired)
  | releasing (r : Releasing) (releasing : w.activity = .releasing r)
      (asks : r.call.request = .deleteOwned name owner)
      (told : notes = departure name id acquired ++ [.began .worker (.deleteOwned name owner)])
  | gone (listening : w.batch?.isSome = true) (rest : List Note)
      (told : notes = departure name id acquired ++ .began .worker (.deleteOwned name owner) :: rest)
      (silent : eventsAbout name rest = []) (idle : ∀ request, .began .worker request ∉ rest)

/-- A step of a release touches no row but the one that it is about, and no slot unless the leases are
    forfeited; then they all are. -/
structure Confined (w : Worker) (owner name : String) (s : Surroundings) (store : Backend) (r : WorkerStep) :
    Prop where
  rows : store.Keyed → ∀ row : Record, ¬ (row.name = name ∧ row.owner = owner) →
    (row ∈ r.store.rows ↔ row ∈ store.rows)
  forfeited : w.Forfeits s → r.worker.slots = w.slots.assign fun _ => false
  kept : ¬ w.Forfeits s → r.worker.slots = w.slots

theorem rows_finish {call : Call} (asks : call.request = .deleteOwned name owner) (trueTime : Int)
    (keyed : store.Keyed) {row : Record} (other : ¬ (row.name = name ∧ row.owner = owner)) :
    row ∈ (call.finish .worker trueTime store).2.1.rows ↔ row ∈ store.rows := by
  rw [Backend.mem_rows_iff (Call.keyed_finish _ _ _ keyed), Backend.mem_rows_iff keyed]
  rcases call.finish_held .worker trueTime keyed with same | ⟨done, _⟩
  · rw [same]
  · rw [done, asks]
    simp only [Request.effect, Option.filter_eq_some_iff]
    simpa using fun _ => not_and_or.mp other

theorem listening_afterCommand {b : Batch} (idle : w.activity = afterCommand b) : w.batch?.isSome = true := by
  cases wanted : b.wanted <;> simp [batch?, idle, afterCommand, wanted]

theorem eventsAbout_giveUp_of_free (free : w.slots.find? name = none) (s : Surroundings) :
    eventsAbout name (w.giveUp s).2 = [] := by
  rw [eventsAbout, List.filter_eq_nil_iff]
  intro n member about
  cases due : w.mustGiveUp s with
  | false =>
    rw [giveUp_of_safe due] at member
    cases member
  | true =>
    simp only [giveUp, due, if_true, List.mem_append, eventsOf, List.mem_map] at member
    rcases member with ⟨c, changing, rfl⟩ | ⟨c, _, rfl⟩
    · have named : c.1 = name := by simpa [Note.isAbout] using about
      have inside := (Slots.mem_changing.mp changing).1
      have found : (w.slots.find? c.1).isSome = true :=
        (Keyed.lookup_isSome_iff w.slots c.1).mpr (List.mem_map_of_mem inside)
      rw [named, free] at found
      cases found
    · cases about

/-- Every step of a release is confined to its row, and brings the release to its end. -/
theorem Departing.step {aborted : Bool} (departing : w₀.Departing owner name id acquired w notes)
    (free : w.slots.find? name = none) (busy : w.batch? = none) (self : s.owner = owner)
    (step : ({ w with aborted } : Worker).step s queue store = some r) :
    w₀.Departing owner name id acquired r.worker (notes ++ r.notes) ∧ w.Confined owner name s store r := by
  cases departing with
  | gone listening => simp [busy] at listening
  | parting b parting told =>
    simp only [Worker.step, parting, Option.some.injEq] at step
    subst step self
    have safe : ¬ w.Forfeits s := by
      rintro ⟨_, _, releasing, _⟩
      cases parting.symm.trans releasing
    exact ⟨.releasing _ rfl rfl (by rw [told]; rfl), fun _ _ _ => Iff.rfl, fun late => absurd late safe,
      fun _ => rfl⟩
  | releasing c releasing asks told =>
    have ends {w' : Worker} {notes' : List Note} (listening : w'.batch?.isSome = true)
        (silent : eventsAbout name notes' = []) (idle : ∀ request, .began .worker request ∉ notes') :
        w₀.Departing owner name id acquired w' (notes ++ notes') :=
      .gone listening notes' (by rw [told, List.append_assoc]; rfl) silent idle
    cases move_of_step step with
    | take listening => simp [batch?, releasing] at listening
    | beginCycle draining => cases releasing.symm.trans draining
    | beginRelease parting => cases releasing.symm.trans parting
    | resume cycling | failCycle cycling | overrun cycling => cases releasing.symm.trans cycling
    | endRelease releasing' due =>
      cases releasing.symm.trans releasing'
      have safe : ¬ w.Forfeits s := by
        rintro ⟨c', _, releasing', pending, _⟩
        cases releasing.symm.trans releasing'
        cases due.symm.trans pending
      refine ⟨ends (listening_afterCommand rfl) ?_ fun request began => ?_,
        fun keyed row other => rows_finish asks _ keyed other, fun late => absurd late safe, fun _ => rfl⟩
      · rw [eventsAbout_append, eventsAbout_finish]
        exact eventsAbout_of_quiet (eventsIn_endRelease { w with aborted } s c _) name
      · rcases List.mem_append.mp began with called | told
        · exact not_began_finish c.call .worker s.trueTime store .worker request called
        · cases remarks_endRelease c _ _ told
    | abandonRelease releasing' pending late =>
      cases releasing.symm.trans releasing'
      refine ⟨ends (listening_afterCommand rfl) ?_ fun request began => ?_, fun _ _ _ => Iff.rfl,
        ?_, fun kept => ?_⟩
      · exact eventsAbout_giveUp_of_free (w := { w with aborted }) free s
      · have given : .began .worker request ∈ (({ w with aborted } : Worker).giveUp s).2 := by
          simpa [abandonRelease] using began
        cases remarks_giveUp _ given
      · rintro ⟨_, point, _, _, _, known, reached⟩
        have due : ({ w with aborted } : Worker).mustGiveUp s = true :=
          mustGiveUp_iff.mpr ⟨point, known, reached⟩
        exact congrArg Worker.slots (giveUp_of_due due)
      · have safe : ({ w with aborted } : Worker).mustGiveUp s = false := by
          rw [← Bool.not_eq_true, mustGiveUp_iff]
          rintro ⟨point, known, reached⟩
          exact kept ⟨c, point, releasing, pending, late, known, reached⟩
        exact congrArg (fun given => given.1.slots) (giveUp_of_safe safe)

theorem Departs.departing (course : w₀.Departs owner name id w notes)
    (found : w₀.slots.find? name = some ⟨id, acquired⟩) :
    w₀.Departing owner name id acquired w notes ∧ w.slots.find? name = none := by
  induction course with
  | take listening step =>
    rw [step_release listening found] at step
    cases step
    exact ⟨.parting _ rfl rfl, Slots.find?_erase_self _ _⟩
  | @next w aborted s queue store notes r before busy self step ih =>
    obtain ⟨departing, free⟩ := ih
    obtain ⟨departing', confined⟩ := departing.step free busy self step
    refine ⟨departing', ?_⟩
    by_cases late : w.Forfeits s
    · rw [confined.forfeited late, Slots.find?_assign, free]
      rfl
    · rw [confined.kept late, free]

/-- What has happened in the course of a release: it has been told before the store is asked for the
    deletion, which is all that it is asked, and nothing is told to the name after that. -/
theorem Departing.told (departing : w₀.Departing owner name id acquired w notes) :
    ∃ rest, notes = departure name id acquired ++ rest ∧ eventsAbout name rest = []
      ∧ (∀ request, .began .worker request ∈ notes → request = .deleteOwned name owner)
      ∧ (w.batch?.isSome = true → .began .worker (.deleteOwned name owner) ∈ rest) := by
  have silent (request : Request) : .began .worker request ∉ departure name id acquired := by
    cases acquired <;> simp [departure]
  cases departing with
  | parting b parting told =>
    refine ⟨[], by simpa using told, rfl, fun request began => ?_, fun listening => ?_⟩
    · exact absurd (told ▸ began) (silent request)
    · simp [batch?, parting] at listening
  | releasing r releasing asks told =>
    refine ⟨_, told, rfl, fun request began => ?_, fun _ => List.mem_singleton_self _⟩
    simpa [told, silent] using began
  | gone listening rest told quiet idle =>
    refine ⟨_, told, by simpa [eventsAbout, Note.isAbout] using quiet, fun request began => ?_,
      fun _ => List.mem_cons_self⟩
    simpa [told, silent, idle] using began

/-- A row that is left over when a cycle begins, after the cycle if it goes well: without a slot for the name
    it is gone, and has been deleted singly unless it had expired; a row that had not expired is renewed for
    the slot that there is, and the slot has it. -/
theorem Course.leftover {w₀ : Worker} {s₀ : Surroundings} {store₀ : Backend}
    (course : w₀.Course Eq s₀ store₀ w store notes) (keyed : w₀.slots.Keyed) (keyed' : store₀.Keyed)
    (ended : .cycleEnded true ∈ notes) {e : Int} (left : ⟨name, s₀.owner, e⟩ ∈ store₀.rows) :
    (w₀.slots.find? name = none → (∀ e', ⟨name, s₀.owner, e'⟩ ∉ store.rows)
        ∧ (.began .worker (.deleteOwned name s₀.owner) ∈ notes ↔ s₀.clock ≤ e))
      ∧ ∀ slot, w₀.slots.find? name = some slot → s₀.clock ≤ e →
        ⟨name, s₀.owner, s₀.written⟩ ∈ store.rows ∧ w.slots.find? name = some ⟨slot.id, true⟩
          ∧ .began .worker (.deleteOwned name s₀.owner) ∉ notes := by
  obtain ⟨waiting, well⟩ := course.over ended
  obtain ⟨keyed'', plan, inLine⟩ := course.planned keyed' well
  have held : store.held = w₀.outcome s₀ store₀ := by simpa only [Worker.planned, waiting] using plan
  have own (e' : Int) : ⟨name, s₀.owner, e'⟩ ∈ store.rows
      ↔ e' = s₀.written ∧ w₀.slots.Earns s₀.owner s₀.clock store₀.rows name := by
    rw [Backend.mem_rows_iff keyed'', held, outcome_own keyed keyed']
  constructor
  · intro free
    refine ⟨fun e' there => ?_, ?_⟩
    · obtain ⟨_, slot, found, _⟩ := (own e').mp there
      cases free.symm.trans found
    · have before := (Backend.mem_rows_iff keyed' ⟨name, s₀.owner, e⟩).mp left
      rw [course.deletes_iff keyed' ended name, and_iff_right free]
      refine ⟨?_, fun live => ⟨e, live, left⟩⟩
      rintro ⟨e', live, there⟩
      have same := (Backend.mem_rows_iff keyed' ⟨name, s₀.owner, e'⟩).mp there
      cases before.symm.trans same
      exact live
  · intro slot found live
    have renewed := (own s₀.written).mpr ⟨rfl, slot, found, .inl ⟨e, left, live⟩⟩
    refine ⟨renewed, ?_, fun deleted => ?_⟩
    · have tracked : (w.slots.find? name).map Slot.id = some slot.id := by
        rw [← Slots.lookup_ledger, (course.follows well).worker, ledger_learn, Slots.lookup_ledger, found]
        rfl
      obtain ⟨slot', found', same⟩ := Option.map_eq_some_iff.mp tracked
      have lined := inLine fun c cycling => by cases waiting.symm.trans cycling
      have acquired : slot'.acquired = true := by
        rw [lined.flags name slot' found', ← held]
        exact ⟨s₀.written, (Backend.mem_rows_iff keyed'' _).mp renewed⟩
      rw [found', ← same, ← acquired]
    · cases found.symm.trans ((course.deletes_iff keyed' ended name).mp deleted).1

end Worker

namespace World

variable {w : World} {i : Nat} {p : Participant} {k : Worker} {name : String} {id : Nat}
  {queue : List Command} {b : Batch}

theorem owner_of_run {actions : List Action} {v : World} (run : w.run? actions = some v)
    (present : w.participants[i]? = some p) {q : Participant} (present' : v.participants[i]? = some q) :
    q.manager.owner = p.manager.owner := by
  refine run?_keeps_past (P := fun m _ => m.owner = p.manager.owner)
    (fun m s store m' b past notes same move => move.frame.1.trans same) run (fun p₁ there => ?_) present'
  obtain rfl := Option.some.inj (present.symm.trans there)
  rfl

/-- The release of a handle, from the moment when it is taken from the queue. The slot goes, and the handle
    is told if it held its lease; then the store is asked to delete the row, and nothing else. Whatever the
    store does, no other row changes, and no other slot unless the leases are forfeited. When a row is left
    over, the next cycle that goes well deletes it if the name has no slot by then, and renews it for the
    new handle otherwise; on a clear link to a store that is ready it does go well. -/
theorem release_end_to_end (reachable : w.Reachable) (keyed : ∀ b ∈ w.stores, b.Keyed)
    (present : w.participants[i]? = some p) (worker : p.manager.worker = some k)
    (queued : p.manager.queue = .release name id :: queue) (listening : k.batch? = some b) :
    ∃ acquired, k.slots.find? name = some ⟨id, acquired⟩
      ∧ (∀ s store, k.step s p.manager.queue store
          = some ⟨{ k with slots := k.slots.erase name, activity := .parting name b }, queue, store,
            .applied (.release name id) :: if acquired then [.event name id false] else []⟩)
      ∧ (∀ l notes, k.Departs p.manager.owner name id l notes →
          l.slots.find? name = none
            ∧ (∃ rest, notes = (.applied (.release name id) ::
                  if acquired then [.event name id false] else []) ++ rest
                ∧ eventsAbout name rest = []
                ∧ (∀ request, .began .worker request ∈ notes → request = .deleteOwned name p.manager.owner)
                ∧ (l.batch?.isSome = true → .began .worker (.deleteOwned name p.manager.owner) ∈ rest))
            ∧ ∀ aborted s queue store r, l.batch? = none → s.owner = p.manager.owner →
                ({ l with aborted } : Worker).step s queue store = some r →
                  l.Confined p.manager.owner name s store r)
      ∧ ∀ actions v q l, w.run? actions = some v → v.participants[i]? = some q →
          q.manager.worker = some l →
            ((v.surroundings q).link = .clear → (v.storeOf q).isReady = true →
                ∀ b, l.activity = .draining b → l.Succeeds (v.surroundings q) (v.storeOf q))
              ∧ ∀ e, ⟨name, p.manager.owner, e⟩ ∈ (v.storeOf q).rows → ∀ l' store notes,
                l.Course Eq (v.surroundings q) (v.storeOf q) l' store notes → .cycleEnded true ∈ notes →
                  (l.slots.find? name = none → (∀ e', ⟨name, p.manager.owner, e'⟩ ∉ store.rows)
                      ∧ (.began .worker (.deleteOwned name p.manager.owner) ∈ notes
                        ↔ (v.surroundings q).clock ≤ e))
                    ∧ ∀ slot, l.slots.find? name = some slot → (v.surroundings q).clock ≤ e →
                      ⟨name, p.manager.owner, (v.surroundings q).written⟩ ∈ store.rows
                        ∧ l'.slots.find? name = some ⟨slot.id, true⟩
                        ∧ .began .worker (.deleteOwned name p.manager.owner) ∉ notes := by
  obtain ⟨acquired, found⟩ : ∃ acquired, k.slots.find? name = some ⟨id, acquired⟩ := by
    have fits := (reachable.balanced (List.mem_of_getElem? present)).admitted
      (Manager.queueOpen_of_worker worker)
    rw [queued, Manager.tracked, worker] at fits
    have here : k.slots.ledger.lookup name = some id := fits.1
    rw [Slots.lookup_ledger] at here
    obtain ⟨⟨_, acquired⟩, there, rfl⟩ := Option.map_eq_some_iff.mp here
    exact ⟨acquired, there⟩
  refine ⟨acquired, found, fun s store => ?_, fun l notes course => ?_, ?_⟩
  · rw [queued]
    exact k.step_release listening found s queue store
  · obtain ⟨departing, free⟩ := course.departing found
    refine ⟨free, departing.told, fun aborted s queue store r busy self step => ?_⟩
    exact (departing.step free busy self step).2
  · intro actions v q l run there worker'
    have self : (v.surroundings q).owner = p.manager.owner := owner_of_run run present there
    have reachable' := reachable.run run
    have ordered := (reachable'.truthful (List.mem_of_getElem? there)).slots_keyed worker'
    have keyed' := keyed_of_run run keyed _ (storeOf_mem (reachable'.placed_of_worker there worker'))
    refine ⟨fun clear ready b draining => Worker.succeeds_of_clear draining clear ready, ?_⟩
    intro e left l' store notes course ended
    rw [← self] at left ⊢
    exact course.leftover ordered keyed' ended left

/-- A lease has been acquired, and its handle is given up while rows cannot be deleted. -/
def stuck : List Action :=
  .start 0 :: turn 0 (.attempt 0) 4 ++ [.create 0 "x"] ++ turn 0 .scheduler 2 ++ turn 0 .worker 9
    ++ [.setLink 0 { failing := [.deleteOwned] }, .release 0 0]

/-- The release is dealt with, and rows can be deleted again when the next cycle is due. -/
def unstuck : List Action :=
  turn 0 .worker 4 ++ [.setLink 0 {}] ++ turn 0 .scheduler 2 ++ List.replicate 4 .tick
    ++ turn 0 .scheduler 3 ++ turn 0 .worker 1

/-- The handle is told, the row is left over, and the next cycle deletes it. -/
theorem release_end_to_end_unstuck : ∃ (w : World) (p : Participant) (k : Worker) (r : WorkerStep)
    (v : World) (q : Participant) (l l' : Worker) (store : Backend) (notes : List Note),
    w.Reachable ∧ (∀ b ∈ w.stores, b.Keyed) ∧ w.participants[0]? = some p ∧ p.manager.worker = some k
      ∧ p.manager.queue = [.release "x" 0] ∧ k.batch? = some .empty
      ∧ k.step (w.surroundings p) p.manager.queue (w.storeOf p) = some r ∧ .event "x" 0 false ∈ r.notes
      ∧ w.run? unstuck = some v ∧ v.participants[0]? = some q ∧ q.manager.worker = some l
      ∧ ⟨"x", "a", 8⟩ ∈ (v.storeOf q).rows
      ∧ l.Course Eq (v.surroundings q) (v.storeOf q) l' store notes ∧ .cycleEnded true ∈ notes
      ∧ .began .worker (.deleteOwned "x" "a") ∈ notes ∧ ∀ e, ⟨"x", "a", e⟩ ∉ store.rows := by
  obtain ⟨w, p, k, v, q, l, reached, present, worker, owner, queued, listening, found, run, there,
      worker', draining, clear, ready, free, left, early⟩ :
      ∃ (w : World) (p : Participant) (k : Worker) (v : World) (q : Participant) (l : Worker),
        lone.run? stuck = some w ∧ w.participants[0]? = some p ∧ p.manager.worker = some k
        ∧ p.manager.owner = "a" ∧ p.manager.queue = [.release "x" 0] ∧ k.batch? = some .empty
        ∧ k.slots.find? "x" = some ⟨0, true⟩ ∧ w.run? unstuck = some v ∧ v.participants[0]? = some q
        ∧ q.manager.worker = some l ∧ l.activity = .draining ⟨[1], true⟩
        ∧ (v.surroundings q).link = .clear ∧ (v.storeOf q).isReady = true
        ∧ l.slots.find? "x" = none ∧ ⟨"x", "a", 8⟩ ∈ (v.storeOf q).rows ∧ (v.surroundings q).clock ≤ 8 :=
    ⟨_, _, _, _, _, _, rfl, rfl, rfl, rfl, rfl, rfl, rfl, rfl, rfl, rfl, rfl, rfl, rfl, rfl, .head _,
      by decide⟩
  have reachable : w.Reachable :=
    ⟨lone, stuck, .join (.initial 0 [.freshMemory]) "a" (.ofMillis 8) 0 {}, reached⟩
  have keyed : ∀ b ∈ w.stores, b.Keyed := keyed_of_run reached fun b inside => by
    obtain rfl := List.mem_singleton.mp inside
    exact MemoryStore.keyed_empty
  obtain ⟨acquired, slot, taken, _, next⟩ :=
    release_end_to_end reachable keyed present worker queued listening
  cases found.symm.trans slot
  rw [owner] at next
  obtain ⟨succeeds, leftover⟩ := next unstuck v q l run there worker'
  obtain ⟨l', store, notes, course, ended⟩ := succeeds clear ready _ draining
  obtain ⟨gone, deleted⟩ := (leftover 8 left l' store notes course ended).1 free
  exact ⟨w, p, k, _, v, q, l, l', store, notes, reachable, keyed, present, worker, queued, listening,
    taken _ _, .tail _ (.head _), run, there, worker', left, course, ended, deleted.mpr early, gone⟩

end World

end Leasehold
