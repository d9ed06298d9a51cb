import Leasehold.Proofs.Delivery
import Leasehold.Proofs.Tally

/-! # What a confirmation promises

The point up to which a worker has its leases confirmed is the end of the rows that it saw when it last
learned what it owns. Every lease that is held has a row that lasts at least as long, except for what has
been carried out on the store since then: a collection for a later time, or a call of the worker's own
that it had given up.
-/

namespace Leasehold

section Notes

variable {notes : List Note}

theorem Plain.untold (plain : Plain notes) : notes.any Note.tellsOwned = false := by
  rw [List.any_eq_false]
  intro n member told
  have said := plain n member
  cases n with
  | answered caller request reply => cases said
  | _ => cases told

theorem Aloof.untold (aloof : Aloof notes) : notes.any Note.tellsOwned = false := by
  rw [List.any_eq_false]
  intro n member told
  cases n with
  | answered caller request reply =>
    cases caller with
    | worker =>
      obtain ⟨c, eq⟩ := aloof _ member rfl
      cases eq
    | _ => cases told
  | _ => cases told

theorem Aloof.unrefreshed (aloof : Aloof notes) : notes.any Note.refreshes = false := by
  apply refreshes_eq_false
  intro o e told
  obtain ⟨n, member, effect⟩ := List.mem_filterMap.mp told
  cases n with
  | effect caller request =>
    cases effect
    obtain ⟨c, eq⟩ := aloof _ member rfl
    cases eq
  | _ => cases effect

end Notes

namespace Request.DatedBy

variable {owner mine name : String} {lease e point : Int} {latest : Option Int} {r : Request}
  {held : Holdings}

theorem foreign (dated : r.DatedBy owner lease latest) (other : owner ≠ mine) : r.Foreign mine := by
  cases r with
  | refreshOwned | claimAbsent => exact dated.1 ▸ other
  | deleteOwned name o =>
    cases dated
    exact other
  | deleteExpired | selectOwned => trivial
  | referenceTime | ensureSchema | dropSchema | listAll => exact dated.elim

theorem row_cases (dated : r.DatedBy owner lease latest) (row : held name = some ⟨owner, e⟩)
    (lasts : point ≤ e) : (∃ e', point ≤ e' ∧ r.effect held name = some ⟨owner, e'⟩)
      ∨ (∃ now, r = .deleteExpired now ∧ point < now) ∨ r = .deleteOwned name owner
      ∨ ∃ e', r = .refreshOwned owner e' ∧ e' < point := by
  cases r with
  | deleteExpired now =>
    by_cases live : now ≤ e
    · exact .inl ⟨e, lasts, by simp [effect, row, live]⟩
    · exact .inr (.inl ⟨now, rfl, by omega⟩)
  | refreshOwned o expiration =>
    obtain ⟨rfl, _⟩ := dated
    rcases le_or_gt point expiration with after | before
    · exact .inl ⟨expiration, after, by simp [effect, row]⟩
    · exact .inr (.inr (.inr ⟨expiration, rfl, before⟩))
  | deleteOwned other o =>
    cases dated
    by_cases same : other = name
    · exact .inr (.inr (.inl (by rw [same])))
    · exact .inl ⟨e, lasts, by simp [effect, row, Ne.symm same]⟩
  | claimAbsent names o expiration => exact .inl ⟨e, lasts, by simp [effect, row]⟩
  | selectOwned o => exact .inl ⟨e, lasts, row⟩
  | referenceTime | ensureSchema | dropSchema | listAll => exact dated.elim

theorem origin (dated : r.DatedBy owner lease latest) (row : r.effect held name = some ⟨owner, e⟩) :
    held name = some ⟨owner, e⟩ ∨ ∀ point, point ≤ e ∨ r.Undercuts owner name point := by
  cases r with
  | deleteExpired now => exact .inl (Option.filter_eq_some_iff.mp row).1
  | refreshOwned o expiration =>
    obtain ⟨rfl, _⟩ := dated
    obtain ⟨h, found, eq⟩ := Option.map_eq_some_iff.mp row
    split at eq
    · cases eq
      exact .inr fun point => (le_or_gt point e).imp_right fun before => ⟨rfl, before⟩
    · exact .inl (eq ▸ found)
  | claimAbsent names o expiration =>
    rcases Option.or_eq_some_iff.mp row with old | ⟨_, new⟩
    · exact .inl old
    · split at new
      · rename_i named
        cases new
        have listed : name ∈ names := by simpa using named
        exact .inr fun point => (le_or_gt point e).imp_right fun before => ⟨listed, rfl, before⟩
      · cases new
  | deleteOwned other o => exact .inl (Option.filter_eq_some_iff.mp row).1
  | selectOwned o => exact .inl row
  | referenceTime | ensureSchema | dropSchema | listAll => exact dated.elim

end Request.DatedBy

/-- The end of a call tells what is owned if the call asks for that and is answered. -/
theorem Call.tellsOwned_finish (c : Call) (trueTime : Int) (store : Backend) :
    (c.finish .worker trueTime store).2.2.any Note.tellsOwned = true
      ↔ (∃ o, c.request = .selectOwned o)
        ∧ ∃ reply, (c.finish .worker trueTime store).1 = .ok reply := by
  constructor
  · intro told
    obtain ⟨n, member, tells⟩ := List.any_eq_true.mp told
    have asks : ∃ o, c.request = .selectOwned o := by
      rcases Call.mem_finish member with rfl | ⟨reply, rfl⟩ | ⟨_, rfl⟩ | ⟨_, _, _, rfl⟩
      · cases tells
      · cases request : c.request with
        | selectOwned o => exact ⟨o, rfl⟩
        | _ => simp [Note.tellsOwned, request] at tells
      · cases tells
      · cases tells
    refine ⟨asks, ?_⟩
    obtain ⟨o, asks⟩ := asks
    have logs : (claimLog store c.request).any Note.tellsOwned = false := by
      rw [asks]
      cases store <;> rfl
    cases result : (store.perform (c.link.storeClock trueTime) c.request).1 with
    | ok reply =>
      cases fate : c.fate with
      | answer => exact ⟨reply, by simp only [finish, fate, result]⟩
      | refuse => simp [finish, fate, Note.tellsOwned] at told
      | lose =>
        simp only [finish, fate, result, effectNotes, List.any_append, List.any_cons, logs] at told
        cases told
    | error e =>
      cases fate : c.fate <;> simp [finish, fate, result, effectNotes, Note.tellsOwned] at told
  · rintro ⟨⟨o, asks⟩, reply, answered⟩
    rw [(Call.finish_ok answered).2.2, asks]
    simp [Note.tellsOwned]

namespace Worker

variable {w : Worker} {s : Surroundings} {queue : List Command} {store : Backend} {r : WorkerStep}

/-- A step leaves alone what is confirmed, or the worker learns what it owns. -/
theorem Sound.learn_cases (sound : w.Sound s) (move : w.Move s queue store r) :
    r.notes.any Note.tellsOwned = false ∧ r.worker.confirmedUntil = w.confirmedUntil
      ∨ r.notes.any Note.tellsOwned = true ∧ ∃ c reply, w.activity = .cycling c
        ∧ c.stage = .selecting ∧ (c.call.finish .worker s.trueTime store).1 = .ok reply
        ∧ r.worker = (w.resume s c reply).1
        ∧ r.store = (c.call.finish .worker s.trueTime store).2.1 := by
  have ended {call : Call} {notes : List Note} (plain : Plain notes) :
      ((call.finish .worker s.trueTime store).2.2 ++ notes).any Note.tellsOwned
        = (call.finish .worker s.trueTime store).2.2.any Note.tellsOwned := by
    rw [List.any_append, plain.untold, Bool.or_false]
  cases move with
  | @take c _ _ b listening =>
    refine .inl ⟨?_, w.confirmed_apply c b⟩
    exact (List.any_cons).trans (remarks_apply c b).plain.untold
  | beginCycle | beginRelease => exact .inl ⟨rfl, rfl⟩
  | @endRelease _ _ r releasing due =>
    refine .inl ⟨?_, rfl⟩
    rw [ended (remarks_endRelease _ _).plain, Bool.eq_false_iff, Ne, Call.tellsOwned_finish]
    rintro ⟨⟨o, asks⟩, _⟩
    cases (sound.releasing r releasing).1.symm.trans asks
  | @abandonRelease _ _ r releasing pending late =>
    refine .inl ⟨?_, w.confirmed_giveUp s⟩
    exact (List.any_cons).trans ((List.any_cons).trans remarks_giveUp.plain.untold)
  | @resume _ _ c reply cycling due answered =>
    obtain ⟨start, _, _, asks⟩ := (sound.cycling c cycling).begun
    have told := Call.tellsOwned_finish c.call s.trueTime store
    by_cases stage : c.stage = .selecting
    · refine .inr ⟨?_, c, reply, cycling, stage, answered, rfl, rfl⟩
      simp only [Cycle.Asks, stage] at asks
      rw [ended (plain_resume c reply), told]
      exact ⟨⟨_, asks⟩, reply, answered⟩
    · refine .inl ⟨?_, ?_⟩
      · rw [ended (plain_resume c reply), Bool.eq_false_iff, Ne, told]
        rintro ⟨⟨o, selects⟩, _⟩
        unfold Cycle.Asks at asks
        split at asks
        · cases asks.symm.trans selects
        · cases asks.symm.trans selects
        · obtain ⟨names, asks⟩ := asks
          cases asks.symm.trans selects
        · exact stage (by assumption)
        · cases asks.symm.trans selects
      · rcases w.resume_eq s c reply with ⟨_, activity, eq⟩ | ⟨is, _⟩
        · rw [eq]
        · exact absurd is stage
  | @failCycle _ _ c e cycling due failed =>
    refine .inl ⟨?_, w.confirmed_giveUp s⟩
    rw [ended (plain_failCycle _ _ _), Bool.eq_false_iff, Ne, Call.tellsOwned_finish]
    rintro ⟨_, reply, answered⟩
    cases failed.symm.trans answered
  | @overrun _ _ c cycling pending late =>
    refine .inl ⟨?_, w.confirmed_giveUp s⟩
    exact (List.any_cons).trans (plain_failCycle store.label c (overdue c)).untold

theorem Sound.stays_confirmed (sound : w.Sound s) (move : w.Move s queue store r) {c : Int}
    (known : w.confirmedUntil = some c) : ∃ c', r.worker.confirmedUntil = some c' ∧ c ≤ c' := by
  rcases move.confirmed_cases with same | ⟨cycle, cycling, _, written⟩
  · exact ⟨c, same.trans known, le_rfl⟩
  · exact ⟨cycle.expiration, written, (sound.cycling cycle cycling).confirmed c known⟩

/-- Leases are backed, except for what the tally of their participant tells. -/
abbrev BackedSince (owner : String) (held : Holdings) (i : Nat) (t : Tally) (w : Worker) : Prop :=
  w.BackedExcept owner held (fun name point => ¬ t.Spares i owner name point) (t.Stale i owner)

section Since

variable {owner : String} {held : Holdings} {i : Nat} {t : Tally} {done : List (Caller × Request)}
  {notes : List Note}

theorem BackedSince.grown (h : w.BackedSince owner held i t)
    (silent : notes.any Note.tellsOwned = false) :
    w.BackedExcept owner held (fun name point => ¬ (t.next done notes).Spares i owner name point)
      (t.Stale i owner) :=
  BackedExcept.later h (fun _ _ lost spares => lost (spares.of_next silent)) fun _ _ => id

/-- What becomes of the rows of a manager that does not move, given what is done meanwhile. -/
inductive Meanwhile (i : Nat) (owner : String) (done : List (Caller × Request)) (held : Holdings) :
    Holdings → Prop where
  | still : Meanwhile i owner done held held
  /-- Somebody else does something, and not in the manager's name. -/
  | foreign {caller : Caller} {r : Request} (member : (caller, r) ∈ done) (foreign : r.Foreign owner) :
      Meanwhile i owner done held (r.effect held)
  /-- A call that the manager had given up is carried out. -/
  | belated {r : Request} {lease : Int} {latest : Option Int} (member : (.adrift i, r) ∈ done)
      (dated : r.DatedBy owner lease latest) : Meanwhile i owner done held (r.effect held)

theorem BackedSince.belated (h : w.BackedSince owner held i t) {r : Request} {lease : Int}
    {latest : Option Int} (dated : r.DatedBy owner lease latest) (member : (.adrift i, r) ∈ done) :
    w.BackedSince owner (r.effect held) i (t.next done []) where
  backed name slot found acquired := by
    obtain ⟨point, known, ⟨e, lasts, row⟩ | gone⟩ := h.backed name slot found acquired
    · refine ⟨point, known, (dated.row_cases row lasts).imp_right fun taken spares => ?_⟩
      have told : (.adrift i, r) ∈ (t.next done []).sinceLearned := List.mem_append_left _ member
      rcases taken with ⟨now, rfl, past⟩ | rfl | ⟨e', rfl, before⟩
      · exact absurd (spares.collected _ now told) (not_le.mpr past)
      · exact spares.deleted told
      · exact absurd (spares.moved e' told) (not_le.mpr before)
    · exact ⟨point, known, .inr fun spares => gone (spares.of_next rfl)⟩
  current c cycling stage name e row := by
    rcases dated.origin row with old | written
    · exact (h.current c cycling stage name e old).imp_right fun stale => stale.next rfl
    · exact (written c.expiration).imp_right fun undercuts =>
        ⟨r, List.mem_append_left _ member, undercuts⟩

theorem BackedSince.meanwhile (h : w.BackedSince owner held i t) {held' : Holdings}
    (meanwhile : Meanwhile i owner done held held') : w.BackedSince owner held' i (t.next done []) := by
  have before : w.BackedSince owner held i (t.next done []) :=
    BackedExcept.later (h.grown rfl) (fun _ _ => id) fun _ _ stale => stale.next rfl
  cases meanwhile with
  | still => exact before
  | @foreign caller _ member foreign =>
    apply BackedExcept.foreign before foreign
    rintro now rfl name point past spares
    exact absurd (spares.collected caller now (List.mem_append_left _ member)) (not_le.mpr past)
  | belated member dated => exact h.belated dated member

end Since

end Worker

namespace Manager

variable {m m' : Manager} {s : Surroundings} {store b : Backend} {notes : List Note} {k : Worker}

/-- Once a manager has had its start, it gets no other worker. -/
theorem Shift.worker_cases (shift : m.Shift s store m' notes) (begun : ¬ m.Early)
    (there : m'.worker = some k) : ∃ w, m.worker = some w
      ∧ ((∃ r, w.Move s m.queue store r ∧ k = r.worker ∧ notes = r.notes)
        ∨ ∃ aborted, k = { w with aborted }) := by
  have same (eq : m'.worker = m.worker) : ∃ w, m.worker = some w
      ∧ ((∃ r, w.Move s m.queue store r ∧ k = r.worker ∧ notes = r.notes)
        ∨ ∃ aborted, k = { w with aborted }) :=
    ⟨k, eq ▸ there, .inr ⟨k.aborted, rfl⟩⟩
  cases shift with
  | create name =>
    obtain ⟨registry, handles, queue, eq⟩ := m.createHandle_eq name
    exact same (by rw [eq])
  | release id =>
    obtain ⟨registry, handles, queue, eq⟩ := m.releaseHandle_eq id
    exact same (by rw [eq])
  | @work w r present move =>
    rw [publishAll_eq] at there
    cases there
    exact ⟨w, present, .inl ⟨r, move, rfl, rfl⟩⟩
  | request | pace => exact same rfl
  | stage staging =>
    cases staging with
    | launch early => exact absurd early begun
    | keep keeps =>
      obtain ⟨w, aborted, present, rfl⟩ := keeps.worker_cases there
      exact ⟨w, present, .inr ⟨aborted, rfl⟩⟩
  | reap =>
    obtain ⟨w, aborted, gone, _⟩ := (keeps_dropQueue { m with worker := none }).worker_cases there
    cases gone

theorem Move.confirmed_cases (move : m.Move s store m' b notes) (staged : m.Staged)
    (sound : ∀ w, m.worker = some w → w.Sound s) {l : Worker} (before : m.worker = some l)
    (there : m'.worker = some k) :
    k.confirmedUntil = l.confirmedUntil ∨ notes.any Note.tellsOwned = true := by
  have begun : ¬ m.Early := fun early => by cases (staged.worker_none early).symm.trans before
  obtain ⟨w, present, ⟨r, step, rfl, rfl⟩ | ⟨aborted, rfl⟩⟩ :=
    (move.shift staged).worker_cases begun there
  · cases before.symm.trans present
    exact ((sound l before).learn_cases step).imp And.right And.left
  · cases before.symm.trans present
    exact .inl rfl

/-- The manager has had its start, and if its worker is still there, its leases are confirmed up to the
    point or beyond. -/
structure Confirms (m : Manager) (point : Int) : Prop where
  begun : ¬ m.Early
  confirmed : ∀ k, m.worker = some k → ∃ c, k.confirmedUntil = some c ∧ point ≤ c

theorem Confirms.move {point : Int} (h : m.Confirms point) (staged : m.Staged)
    (sound : ∀ w, m.worker = some w → w.Sound s) (move : m.Move s store m' b notes) :
    m'.Confirms point := by
  have shift := move.shift staged
  refine ⟨shift.settled h.begun, fun k there => ?_⟩
  obtain ⟨w, present, ⟨r, step, rfl, _⟩ | ⟨aborted, rfl⟩⟩ := shift.worker_cases h.begun there
  · obtain ⟨c, known, le⟩ := h.confirmed w present
    obtain ⟨c', known', le'⟩ := (sound w present).stays_confirmed step known
    exact ⟨c', known', le_trans le le'⟩
  · exact h.confirmed w present

theorem Move.backed_since {t : Tally} {i : Nat} {done : List (Caller × Request)}
    (move : m.Move s store m' b notes) (modest : m.Modest)
    (sound : ∀ w, m.worker = some w → w.Sound s) (keyed : store.Keyed)
    (backed : ∀ w, m.worker = some w → w.BackedSince s.owner store.held i t)
    (told : ∀ request, (.worker, request) ∈ effectsIn notes → (.worker, request) ∈ done)
    (there : m'.worker = some k) : k.BackedSince s.owner b.held i (t.next done notes) := by
  refine move.backed_of_step modest keyed backed (fun aloof => ⟨?_, ?_⟩) ?_ there
  · exact fun name point lost spares => lost (spares.of_next aloof.untold)
  · exact fun name point stale => stale.next aloof.unrefreshed
  rintro w r present step rfl
  rcases (sound w present).learn_cases step with
    ⟨silent, _⟩ | ⟨learned, c, reply, cycling, stage, answered, worker, store_eq⟩
  · refine ((backed w present).grown silent).carry (sound w present) keyed step ?_ ?_ ?_
    · intro now effect name point past spares
      refine absurd (spares.collected .worker now ?_) (not_le.mpr past)
      rw [(Tally.next_of_silent t done silent).1]
      exact List.mem_append_left _ (told _ effect)
    · rintro ⟨o, reply, member⟩
      have learned : r.notes.any Note.tellsOwned = true := List.any_eq_true.mpr ⟨_, member, rfl⟩
      cases silent.symm.trans learned
    · exact fun other name point stale => stale.next (refreshes_eq_false other)
  · rw [worker, store_eq]
    exact (backed w present).learn (sound w present) keyed cycling stage answered
      fun name point stale => stale.not_spares_next learned

end Manager

/-- What an action of somebody who is no manager may do on a store in which this owner has rows. -/
def World.Action.Leaves (owner : String) (n : Nat) : World.Action → Prop
  | .use store request => store = n → request.Foreign owner
  | _ => True

instance (mine : String) : DecidablePred (Request.Foreign mine)
  | .refreshOwned o _ | .claimAbsent _ o _ | .deleteOwned _ o => inferInstanceAs (Decidable (o ≠ mine))
  | .dropSchema => .isFalse id
  | .deleteExpired _ | .selectOwned _ | .referenceTime | .ensureSchema | .listAll => .isTrue trivial

instance (owner : String) (n : Nat) : DecidablePred (World.Action.Leaves owner n)
  | .use store request => inferInstanceAs (Decidable (store = n → request.Foreign owner))
  | .start _ | .list _ | .create _ _ | .release _ _ | .stop _ | .abandon _ | .setLink _ _
  | .setClock _ _ | .land _ | .pick _ | .proceed _ | .tick => .isTrue trivial

namespace World

variable {w w' : World} {a : Action} {i j n : Nat} {p p' q : Participant} {owner : String}
  {m : Manager} {b : Backend} {notes : List Note} {t : Tally}

/-! ## A manager among others -/

/-- A manager, the store that it uses, and others with other owner ids. -/
structure Apart (w : World) (i : Nat) (owner : String) (n : Nat) : Prop where
  reachable : w.Reachable
  keyed : ∀ b ∈ w.stores, b.Keyed
  placed : n < w.stores.length
  own : ∀ p, w.participants[i]? = some p → p.manager.owner = owner ∧ p.store = n
  others : ∀ j q, j ≠ i → w.participants[j]? = some q → q.manager.owner ≠ owner

theorem Change.frame (change : w.Change a w') (present' : w'.participants[j]? = some p') :
    ∃ p, w.participants[j]? = some p ∧ p'.manager.owner = p.manager.owner ∧ p'.store = p.store := by
  obtain ⟨p, present, store, _⟩ := change.stays present'
  obtain ⟨q, there, moved⟩ := change.past_cases present'
  obtain rfl := Option.some.inj (present.symm.trans there)
  refine ⟨p, present, ?_, store⟩
  rcases moved with ⟨same, _⟩ | ⟨b, notes, move, _⟩
  · rw [same]
  · exact move.frame.1

theorem Apart.act (h : w.Apart i owner n) (act : w.act? a = some w') : w'.Apart i owner n := by
  have change := change_of_act? act
  refine ⟨h.reachable.act act, change.keyed h.keyed, change.length_stores ▸ h.placed,
    fun p' present' => ?_, fun j q' ne present' => ?_⟩
  · obtain ⟨p, present, owner, store⟩ := change.frame present'
    rw [owner, store]
    exact h.own p present
  · obtain ⟨q, present, owner, _⟩ := change.frame present'
    rw [owner]
    exact h.others j q ne present

theorem Apart.modest (h : w.Apart i owner n) (present : w.participants[j]? = some q) :
    q.manager.Modest :=
  h.reachable.manager Manager.modest_fresh (fun _ _ _ _ _ _ modest move => modest.move move)
    (List.mem_of_getElem? present)

theorem Apart.keyed_storeOf (h : w.Apart i owner n) (present : w.participants[i]? = some p) :
    (w.storeOf p).Keyed := by
  have placed := h.placed
  rw [← (h.own p present).2] at placed
  exact h.keyed _ (storeOf_mem placed)

theorem Apart.foreign (h : w.Apart i owner n) (ne : j ≠ i) (present : w.participants[j]? = some q)
    {k : Worker} (worker : q.manager.worker = some k) {call : Call} (called : k.call? = some call) :
    call.request.Foreign owner := by
  obtain ⟨start, actions, begins, run⟩ := h.reachable
  have dated := (begins.dated run q present k worker).request called
  exact Request.DatedBy.foreign dated (h.others j q ne present)

theorem Apart.others_write (h : w.Apart i owner n) (present : w.participants[i]? = some p)
    (ne : j ≠ i) (moved : w.Moved j q m b notes w') :
    Worker.Meanwhile i owner (w.carriedOut w' a n) (w.storeOf p).held (w'.storeOf p).held := by
  obtain ⟨_, rfl⟩ := h.own p present
  have inside := h.placed
  have before : w.stores[p.store]? = some (w.storeOf p) := by simp [storeOf, inside]
  have after : w'.stores[p.store]? = some (w'.storeOf p) := by
    simp [storeOf, moved.stores, inside]
  rcases moved.write_cases (h.modest moved.present) h.keyed before after with
    same | ⟨uses, k, call, worker, called, done, told⟩
  · exact same ▸ .still
  · have member : (.worker, call.request) ∈ w.carriedOut w' a q.store :=
      moved.mem_carriedOut (told ▸ List.mem_singleton_self _)
    rw [done]
    exact .foreign (uses ▸ member) (h.foreign ne moved.present worker called)

theorem Apart.outsider_writes (h : w.Apart i owner n) (present : w.participants[i]? = some p)
    (store : Nat) (request : Request) (leaves : (Action.use store request).Leaves owner n) :
    Worker.Meanwhile i owner (w.carriedOut (w.use store request) (.use store request) n)
      (w.storeOf p).held ((w.use store request).storeOf p).held := by
  obtain ⟨_, rfl⟩ := h.own p present
  rcases w.held_use h.keyed store request p with same | ⟨rfl, member, wrote⟩
  · exact same ▸ .still
  · rw [wrote]
    exact .foreign member (leaves rfl)

theorem Apart.stray_writes (h : w.Apart i owner n) (present : w.participants[i]? = some p) {place : Nat}
    {stray : Stray} (landed : w.Landed place stray q b w') :
    Worker.Meanwhile i owner (w.carriedOut w' (.land place) n) (w.storeOf p).held
      (w'.storeOf p).held := by
  obtain ⟨rfl, rfl⟩ := h.own p present
  rcases landed.held_cases (h.keyed b (List.mem_of_getElem? landed.found)) p with
    same | ⟨here, member, wrote⟩
  · exact same ▸ .still
  rw [wrote]
  rw [← here] at member
  obtain ⟨start, actions, begins, run⟩ := h.reachable
  obtain ⟨_, _, _, dated⟩ :=
    begins.adrift_dated run (List.mem_of_getElem? landed.adrift) landed.present
  by_cases own : stray.participant = i
  · obtain rfl := Option.some.inj (present.symm.trans (own ▸ landed.present))
    exact .belated (own ▸ member) dated
  · exact .foreign member (dated.foreign (h.others _ q own landed.present))

/-! ## What the manager has confirmed -/

/-- The worker of a participant asks for what it should, and its leases are backed except for what the
    tally tells. -/
structure Pledged (w : World) (i : Nat) (t : Tally) : Prop where
  sound : ∀ p k, w.participants[i]? = some p → p.manager.worker = some k → k.Sound (w.surroundings p)
  backed : ∀ p k, w.participants[i]? = some p → p.manager.worker = some k →
    k.BackedSince p.manager.owner (w.storeOf p).held i t

theorem Begins.pledged (begins : w.Begins) : w.Pledged i {} := by
  have none (p : Participant) (k : Worker) (present : w.participants[i]? = some p) :
      p.manager.worker ≠ some k := by
    obtain ⟨owner, settings, eq⟩ := begins.manager_fresh (List.mem_of_getElem? present)
    rw [eq]
    nofun
  exact ⟨fun p k present there => absurd there (none p k present),
    fun p k present there => absurd there (none p k present)⟩

section Steps

variable (h : w.Pledged i t) (apart : w.Apart i owner n) (present : w.participants[i]? = some p)
  (present' : w'.participants[i]? = some p')
  (le : ∀ time ∈ w.clockOf i, ∀ time' ∈ w'.clockOf i, time ≤ time')

include present present' le

theorem clock_le : (w.surroundings p).clock ≤ (w'.surroundings p').clock := by
  apply le
  · simp [clockOf, present, surroundings]
  · simp [clockOf, present', surroundings]

include h apart

theorem Pledged.aside (manager : p'.manager = p.manager) (silent : w.newsOf w' i = [])
    (meanwhile : Worker.Meanwhile i owner (w.carriedOut w' a n) (w.storeOf p).held
      (w'.storeOf p').held) :
    w'.Pledged i (w.tallyAfter w' a i n t) := by
  have clock := clock_le present present' le
  refine ⟨fun q k there worker => ?_, fun q k there worker => ?_⟩
  · obtain rfl := Option.some.inj (present'.symm.trans there)
    rw [manager] at worker
    apply (h.sound p k present worker).later ?_ ?_ clock
    · simp [surroundings, manager]
    · simp [surroundings, manager]
  · obtain rfl := Option.some.inj (present'.symm.trans there)
    rw [manager] at worker ⊢
    rw [tallyAfter, silent]
    obtain ⟨rfl, _⟩ := apart.own p present
    exact (h.backed p k present worker).meanwhile meanwhile

theorem Pledged.beside (unmoved : w.Unmoved w')
    (meanwhile : Worker.Meanwhile i owner (w.carriedOut w' a n) (w.storeOf p).held
      (w'.storeOf p').held) :
    w'.Pledged i (w.tallyAfter w' a i n t) := by
  obtain ⟨q, there, manager, past⟩ := unmoved i p' present'
  obtain rfl := Option.some.inj (present.symm.trans there)
  refine h.aside apart present present' le manager ?_ meanwhile
  rw [newsOf, past, List.drop_length]

theorem Pledged.moved (moved : w.Moved i p m b notes w') :
    w'.Pledged i (w.tallyAfter w' a i n t) := by
  obtain ⟨_, uses⟩ := apart.own p present
  have placed := apart.placed
  rw [← uses] at placed
  have sound := fun k => h.sound p k present
  have clock := clock_le present present' le
  refine ⟨fun q k there worker => ?_, fun q k there worker => ?_⟩
  · obtain rfl := Option.some.inj (present'.symm.trans there)
    rcases moved.participant_cases there with ⟨_, rfl⟩ | ⟨ne, _⟩
    · exact (moved.move.sound sound worker).later moved.move.frame.1 moved.move.frame.2 clock
    · exact absurd rfl ne
  · rcases moved.participant_cases there with ⟨_, rfl⟩ | ⟨ne, _⟩
    · have mine : w'.storeOf { p with manager := m } = b := moved.storeOf_same placed rfl
      rw [mine]
      change k.BackedSince m.owner b.held i _
      rw [moved.move.frame.1, tallyAfter, moved.news, if_pos rfl]
      exact moved.move.backed_since (apart.modest present) sound (apart.keyed_storeOf present)
        (fun k => h.backed p k present) (fun request told => uses ▸ moved.mem_carriedOut told) worker
    · exact absurd rfl ne

end Steps

theorem storeOf_of_stores (stores : w'.stores = w.stores) (store : p'.store = p.store) :
    w'.storeOf p' = w.storeOf p := by
  rw [storeOf, storeOf, stores, store]

theorem Pledged.act (h : w.Pledged i t) (apart : w.Apart i owner n) (leaves : a.Leaves owner n)
    (act : w.act? a = some w') (le : ∀ time ∈ w.clockOf i, ∀ time' ∈ w'.clockOf i, time ≤ time') :
    w'.Pledged i (w.tallyAfter w' a i n t) := by
  cases there : w'.participants[i]? with
  | none =>
    exact ⟨fun p k present => absurd (there.symm.trans present) nofun,
      fun p k present => absurd (there.symm.trans present) nofun⟩
  | some p' =>
    have change := change_of_act? act
    obtain ⟨p, present, store, _⟩ := change.stays there
    have still (unmoved : w.Unmoved w') (stores : w'.stores = w.stores) :
        w'.Pledged i (w.tallyAfter w' a i n t) := by
      apply h.beside apart present there le unmoved
      rw [storeOf_of_stores stores store]
      exact .still
    cases change with
    | @move _ j q m b notes _ moved =>
      by_cases own : j = i
      · subst own
        obtain rfl := Option.some.inj (present.symm.trans moved.present)
        exact h.moved apart present there le moved
      · rcases moved.participant_cases there with ⟨same, _⟩ | ⟨_, old⟩
        · exact absurd same.symm own
        · obtain rfl := Option.some.inj (present.symm.trans old)
          apply h.aside apart present there le rfl
          · rw [moved.news, if_neg own]
          · exact apart.others_write present own moved
    | rest same => exact still (unmoved_of_same same.participants same.journal) same.stores
    | tick quiet => exact still (unmoved_of_same rfl rfl) rfl
    | setLink j link => exact still (w.unmoved_setLink j link) rfl
    | setClock j clock => exact still (w.unmoved_setClock j clock) rfl
    | use used request =>
      apply h.beside apart present there le (w.unmoved_use used request)
      rw [storeOf_congr _ store]
      exact apart.outsider_writes present used request leaves
    | land landed =>
      apply h.beside apart present there le landed.unmoved
      rw [storeOf_congr _ store]
      exact apart.stray_writes present landed

theorem Apart.begins (begins : w.Begins) (keyed : ∀ b ∈ w.stores, b.Keyed)
    (present : w.participants[i]? = some p) (placed : p.store < w.stores.length)
    (others : ∀ j q, j ≠ i → w.participants[j]? = some q → q.manager.owner ≠ p.manager.owner) :
    w.Apart i p.manager.owner p.store := by
  refine ⟨⟨w, [], begins, rfl⟩, keyed, placed, fun q there => ?_, others⟩
  obtain rfl := Option.some.inj (present.symm.trans there)
  exact ⟨rfl, rfl⟩

section Runs

variable {actions : List Action} (h : w.Pledged i t) (apart : w.Apart i owner n)
  (forward : w.NeverBack i actions) (leaves : ∀ a ∈ actions, a.Leaves owner n)
  (run : w.run? actions = some w')

include h apart forward leaves run

theorem Pledged.of_run : w'.Apart i owner n ∧ w'.Pledged i (w.tallyFrom i n t actions) :=
  run?_keeps_tally (P := fun v t => v.Apart i owner n ∧ v.Pledged i t)
    (fun _ _ _ _ both leaves act le => ⟨both.1.act act, both.2.act both.1 leaves act le⟩)
    leaves forward run ⟨apart, h⟩

end Runs

end World

end Leasehold
