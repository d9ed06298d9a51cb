import Leasehold.Proofs.Adrift
import Leasehold.Proofs.CycleStarts
import Leasehold.Proofs.Retention
import Leasehold.Proofs.Trouble

/-! # What a cycle writes lasts beyond the cycle

A cycle writes the expiration that it computed when it began, however long the calls before have
taken. It may take a lease duration at most, so its time is over before what it writes is:
`Worker.Punctual` keeps deadline and expiration together. A call that is given up and carried out late
still writes that expiration, but its time may be over by then.
-/

namespace Leasehold

/-- The expiration that a request writes, if it writes one. -/
def Request.expiration? : Request → Option Int
  | .refreshOwned _ expiration | .claimAbsent _ _ expiration => some expiration
  | _ => none

theorem Cycle.Asks.writes {c : Cycle} {owner : String} {start e : Int} (asks : c.Asks owner start)
    (writes : c.call.request.expiration? = some e) : e = c.expiration := by
  unfold Cycle.Asks at asks
  split at asks
  · rw [asks] at writes
    cases writes
  · rw [asks] at writes
    exact (Option.some.inj writes).symm
  · obtain ⟨names, asks⟩ := asks
    rw [asks] at writes
    exact (Option.some.inj writes).symm
  · rw [asks] at writes
    cases writes
  · rw [asks] at writes
    cases writes

namespace Worker

variable {w : Worker} {s s' : Surroundings} {queue : List Command} {store : Backend} {r : WorkerStep}
  {millis : Nat} {latest : Option Int}

theorem Dated.writes {owner : String} {lease : Int} (h : w.Dated owner lease latest) {call : Call}
    (called : w.call? = some call) {e : Int} (writes : call.request.expiration? = some e) :
    ∃ c, w.activity = .cycling c ∧ e = c.expiration := by
  cases activity : w.activity with
  | releasing r =>
    obtain rfl : r.call = call := by simpa [call?, activity] using called
    rw [h.releasing r activity] at writes
    cases writes
  | cycling c =>
    obtain rfl : c.call = call := by simpa [call?, activity] using called
    obtain ⟨start, _, _, asks⟩ := h.cycling c activity
    exact ⟨c, rfl, asks.writes writes⟩
  | waiting | draining | parting => simp [call?, activity] at called

/-- A cycle ends before the point up to which it writes, and nothing is confirmed beyond one lease
    from now. -/
structure Punctual (s : Surroundings) (millis : Nat) (latest : Option Int) (w : Worker) : Prop where
  confirmed : ∀ point, w.confirmedUntil = some point → point ≤ s.clock + millis
  cycling : ∀ c, w.activity = .cycling c → ∃ started ≤ s.clock, latest = some started
    ∧ c.expiration = started + millis ∧ s.now ≤ c.deadline
    ∧ s.clock + c.deadline ≤ c.expiration + s.now

theorem punctual_fresh (aborted : Bool) : ({ fresh with aborted } : Worker).Punctual s millis latest := by
  constructor <;> simp [fresh]

theorem Punctual.abort (h : w.Punctual s millis latest) (aborted : Bool) :
    ({ w with aborted } : Worker).Punctual s millis latest := ⟨h.confirmed, h.cycling⟩

theorem Punctual.frame (h : w.Punctual s millis latest) (now : s'.now = s.now)
    (clock : s'.clock = s.clock) : w.Punctual s' millis latest := by
  refine ⟨?_, ?_⟩
  · rw [clock]
    exact h.confirmed
  · rw [clock, now]
    exact h.cycling

theorem Punctual.tick (h : w.Punctual s millis latest) (now : s'.now = s.now + 1)
    (clock : s'.clock = s.clock + 1)
    (waits : ∀ deadline, w.deadline? = some deadline → s.now < deadline) :
    w.Punctual s' millis latest := by
  refine ⟨fun point known => ?_, fun c cycling => ?_⟩
  · have := h.confirmed point known
    omega
  · obtain ⟨started, before, known, written, _, within⟩ := h.cycling c cycling
    have ahead := waits c.deadline (by simp [deadline?, cycling])
    refine ⟨started, ?_, known, written, ?_, ?_⟩
    · omega
    · omega
    · rw [now]
      push_cast
      omega

theorem Punctual.allowance_le (h : w.Punctual s millis latest) (settings : s.settings = .ofMillis millis)
    (inside : Reading.min ≤ s.clock) : (w.allowance s).ceilMillis ≤ millis := by
  rw [allowance_eq]
  cases pledged : w.pledge? with
  | none =>
    rw [settings]
    exact le_of_eq (Duration.ceilMillis_ofMillis millis)
  | some point =>
    have known : w.confirmedUntil = some point := (Option.ite_none_right_eq_some.mp pledged).2
    have recent := h.confirmed point known
    have grace : 0 ≤ s.settings.graceMillis := s.settings.graceMillis_nonneg
    simp only [Duration.ceilMillis_ofMillis]
    by_cases left : 0 < Reading.sub (Reading.sub point s.settings.graceMillis) s.clock
    · have within := Reading.add_sub_sub_le inside left
      omega
    · omega

/-- Every step keeps the deadline of a cycle before its expiration. -/
theorem Punctual.move (h : w.Punctual s millis latest) (settings : s.settings = .ofMillis millis)
    (fits : Reading.add s.clock s.settings.leaseMillis = s.clock + millis)
    (inside : Reading.min ≤ s.clock) (move : w.Move s queue store r) :
    r.worker.Punctual s millis
      (if r.notes.any Note.beginsCycle then some s.clock else latest) := by
  refine ⟨fun point known => ?_, fun c' cycling' => ?_⟩
  · rcases move.confirmed_cases with same | ⟨c, cycling, _, confirmed⟩
    · exact h.confirmed point (same ▸ known)
    · obtain ⟨started, before, _, written, _, _⟩ := h.cycling c cycling
      cases confirmed.symm.trans known
      omega
  · rcases move.start_cases with ⟨begins, tickets, eq⟩ | ⟨silent, goesOn⟩
    · rw [eq] at cycling'
      cases cycling'
      have short := h.allowance_le settings inside
      refine ⟨s.clock, le_rfl, if_pos begins, fits, ?_, ?_⟩
      · exact Nat.le_add_right _ _
      · change s.clock + ((s.now + (w.allowance s).ceilMillis : Nat) : Int)
          ≤ Reading.add s.clock s.settings.leaseMillis + s.now
        rw [fits]
        push_cast
        omega
    · obtain ⟨c, cycling, expiration, deadline, _⟩ := goesOn c' cycling'
      rw [silent, expiration, deadline]
      exact h.cycling c cycling

end Worker

namespace World

variable {start w w' : World} {i : Nat} {p p' : Participant} {epoch offset : Int} {millis now last : Nat}
  {latest : Option Int}

/-- At this moment no sum stops at the end of the range of readings: neither the time, nor what a clock
    shows that is off by `offset`, nor the end of a lease of `millis` milliseconds. -/
structure Ranged (epoch offset : Int) (millis now : Nat) : Prop where
  lease : Reading.InRange millis
  time : Reading.InRange (epoch + now)
  clock : Reading.InRange (epoch + now + offset)
  ends : Reading.InRange (epoch + now + offset + millis)

theorem Ranged.earlier (first : Ranged epoch offset millis 0) (final : Ranged epoch offset millis last)
    (le : now ≤ last) : Ranged epoch offset millis now := by
  obtain ⟨lease, time, clock, ends⟩ := first
  obtain ⟨_, time', clock', ends'⟩ := final
  unfold Reading.InRange at time clock ends time' clock' ends'
  refine ⟨lease, ?_, ?_, ?_⟩ <;> unfold Reading.InRange <;> omega

/-- A participant with a lease of whole milliseconds, a clock that runs, and a store that there is. -/
structure Equipped (w : World) (offset : Int) (millis : Nat) (p : Participant) : Prop where
  settings : p.manager.settings = .ofMillis millis
  clock : p.clock = ⟨offset, none⟩
  placed : p.store < w.stores.length

theorem Equipped.frame (h : w.Equipped offset millis p)
    (settings : p'.manager.settings = p.manager.settings) (clock : p'.clock = p.clock)
    (store : p'.store = p.store) (stores : w'.stores.length = w.stores.length) :
    w'.Equipped offset millis p' :=
  ⟨settings.trans h.settings, clock.trans h.clock, store ▸ stores ▸ h.placed⟩

theorem Equipped.reading (h : w.Equipped offset millis p) (ranged : Ranged w.epoch offset millis w.now) :
    (w.surroundings p).clock = w.epoch + w.now + offset := by
  have running : p.clock.frozen = none := by rw [h.clock]
  have same : p.clock.offset = offset := by rw [h.clock]
  have inside := ranged.clock
  rw [← same] at inside ⊢
  exact reading_of_range running ranged.time inside

theorem Equipped.fits (h : w.Equipped offset millis p) (ranged : Ranged w.epoch offset millis w.now) :
    Reading.add (w.surroundings p).clock (w.surroundings p).settings.leaseMillis
      = (w.surroundings p).clock + millis := by
  have settings : (w.surroundings p).settings = .ofMillis millis := h.settings
  rw [settings, Settings.leaseMillis_ofMillis ranged.lease, h.reading ranged]
  exact Reading.add_eq ranged.ends

/-- Until `last`, cycles of the participant end before the point up to which they write. -/
structure Punctual (w : World) (i : Nat) (epoch offset : Int) (millis last : Nat)
    (latest : Option Int) : Prop where
  epoch : w.epoch = epoch
  equipped : ∀ p, w.participants[i]? = some p → w.Equipped offset millis p
  worker : w.now ≤ last → ∀ p, w.participants[i]? = some p → ∀ k, p.manager.worker = some k →
    k.Punctual (w.surroundings p) millis latest

theorem Begins.punctual (begins : start.Begins)
    (equipped : ∀ p, start.participants[i]? = some p → start.Equipped offset millis p) :
    start.Punctual i start.epoch offset millis last latest := by
  refine ⟨rfl, equipped, fun _ p present k there => ?_⟩
  obtain ⟨owner, settings, eq⟩ := begins.manager_fresh (List.mem_of_getElem? present)
  rw [eq] at there
  cases there

theorem Punctual.frame (h : w.Punctual i epoch offset millis last latest) (now : w'.now = w.now)
    (epochs : w'.epoch = w.epoch) (stores : w'.stores.length = w.stores.length)
    (past : w'.notesOf i = w.notesOf i)
    (participants : ∀ p', w'.participants[i]? = some p' → ∃ p, w.participants[i]? = some p
      ∧ p'.manager = p.manager ∧ p'.clock = p.clock ∧ p'.store = p.store) :
    w'.Punctual i epoch offset millis last (w.startAfter w' i latest) := by
  rw [startAfter_of_still past]
  refine ⟨epochs.trans h.epoch, fun p' present' => ?_, fun early p' present' k there => ?_⟩
  · obtain ⟨p, present, manager, clock, store⟩ := participants p' present'
    exact (h.equipped p present).frame (congrArg Manager.settings manager) clock store stores
  · obtain ⟨p, present, manager, clock, _⟩ := participants p' present'
    refine (h.worker (now ▸ early) p present k (manager ▸ there)).frame now ?_
    simp only [surroundings, trueTime, now, epochs, clock]

theorem Punctual.moved (h : w.Punctual i epoch offset millis last latest)
    (first : Ranged epoch offset millis 0) (final : Ranged epoch offset millis last) {j : Nat}
    {q : Participant} {m : Manager} {b : Backend} {notes : List Note}
    (moved : w.Moved j q m b notes w') :
    w'.Punctual i epoch offset millis last (w.startAfter w' i latest) := by
  have stores : w'.stores.length = w.stores.length := by rw [moved.stores, List.length_set]
  by_cases own : j = i
  · subst own
    have equipped := h.equipped q moved.present
    refine ⟨moved.epoch.trans h.epoch, fun p' present' => ?_, fun early p' present' k there => ?_⟩
    · rcases moved.participant_cases present' with ⟨_, rfl⟩ | ⟨ne, _⟩
      · exact equipped.frame moved.move.frame.2 rfl rfl stores
      · exact absurd rfl ne
    · rcases moved.participant_cases present' with ⟨_, rfl⟩ | ⟨ne, _⟩
      · rw [moved.now] at early
        have before := h.worker early q moved.present
        have ranged : Ranged w.epoch offset millis w.now := by
          rw [h.epoch]
          exact first.earlier final early
        have clock : w.clockOf j = some (w.surroundings q).clock := by
          simp [clockOf, moved.present, surroundings]
        rw [startAfter, moved.news, if_pos rfl, clock]
        refine Worker.Punctual.frame (s := w.surroundings q) ?_ moved.now ?_
        · rcases moved.move.work_cases with ⟨k₀, r, present, step, eq, _, rfl⟩ | aside
          · rw [eq, Manager.publishAll_eq] at there
            cases there
            exact (before k₀ present).move equipped.settings (equipped.fits ranged)
              (q.clock.min_le_reading w.trueTime) step
          · rw [begins_of_aloof aside.aloof]
            obtain ⟨k₀, aborted, origin, rfl⟩ := aside.worker k there
            rcases origin with present | rfl
            · exact (before k₀ present).abort aborted
            · exact Worker.punctual_fresh aborted
        · exact congrArg q.clock.reading moved.trueTime
      · exact absurd rfl ne
  · refine h.frame moved.now moved.epoch stores ?_ fun p' present' => ?_
    · rw [notesOf_of_lines moved.journal, if_neg own, List.append_nil]
    · rcases moved.participant_cases present' with ⟨rfl, _⟩ | ⟨_, old⟩
      · exact absurd rfl own
      · exact ⟨p', old, rfl, rfl, rfl⟩

theorem Punctual.elapse (h : w.Punctual i epoch offset millis last latest)
    (first : Ranged epoch offset millis 0) (final : Ranged epoch offset millis last)
    (quiet : w.isQuiet = true) :
    (w.elapse 1).Punctual i epoch offset millis last (w.startAfter (w.elapse 1) i latest) := by
  have past : (w.elapse 1).notesOf i = w.notesOf i := rfl
  rw [startAfter_of_still past]
  refine ⟨h.epoch, fun p present => (h.equipped p present).frame rfl rfl rfl rfl,
    fun early p present k there => ?_⟩
  have before : w.now ≤ last := Nat.le_of_succ_le early
  have equipped := h.equipped p present
  have soon : (w.elapse 1).Equipped offset millis p := equipped.frame rfl rfl rfl rfl
  have here := equipped.reading (h.epoch ▸ first.earlier final before)
  have there' := soon.reading (h.epoch ▸ first.earlier final early)
  refine (h.worker before p present k there).tick rfl ?_ fun deadline due => ?_
  · rw [here, there']
    simp only [World.elapse]
    push_cast
    omega
  · have rests := (resting_of_quiet quiet present equipped.placed).worker k there
    rcases Worker.rest_cases rests.2 with ⟨waiting, _⟩ | ⟨_, deadline', _, due', _, ahead⟩
    · simp [Worker.deadline?, waiting] at due
    · rw [due'] at due
      exact Option.some.inj due ▸ ahead

theorem Punctual.change (h : w.Punctual i epoch offset millis last latest)
    (first : Ranged epoch offset millis 0) (final : Ranged epoch offset millis last) {a : Action}
    (unset : ∀ clock, a ≠ .setClock i clock) (change : w.Change a w') :
    w'.Punctual i epoch offset millis last (w.startAfter w' i latest) := by
  cases change with
  | move moved => exact h.moved first final moved
  | rest same =>
    refine h.frame same.now same.epoch (congrArg List.length same.stores)
      (notesOf_of_journal same.journal i) fun p' present' => ?_
    exact ⟨p', same.participants ▸ present', rfl, rfl, rfl⟩
  | tick quiet => exact h.elapse first final quiet
  | setLink j link =>
    refine h.frame rfl rfl rfl rfl fun p' present' => ?_
    obtain ⟨p, _, present, rfl⟩ := setLink_participant present'
    exact ⟨p, present, rfl, rfl, rfl⟩
  | setClock j clock =>
    refine h.frame rfl rfl rfl rfl fun p' present' => ?_
    have other : j ≠ i := fun same => unset clock (same ▸ rfl)
    obtain ⟨p, _, present, rfl, same⟩ := setClock_participant present'
    exact ⟨p, present, rfl, same.resolve_right other, rfl⟩
  | use store request =>
    have same : (w.use store request).now = w.now ∧ (w.use store request).epoch = w.epoch := by
      unfold World.use
      split <;> exact ⟨rfl, rfl⟩
    refine h.frame same.1 same.2 (Change.use store request).length_stores
      (w.notesOf_use store request i) fun p' present' => ?_
    exact ⟨p', w.participants_use store request ▸ present', rfl, rfl, rfl⟩
  | land landed =>
    have same : w'.now = w.now ∧ w'.epoch = w.epoch := by
      rw [landed.eq]
      exact ⟨rfl, rfl⟩
    refine h.frame same.1 same.2 (Change.land landed).length_stores (landed.notesOf_eq i)
      fun p' present' => ?_
    exact ⟨p', landed.participants ▸ present', rfl, rfl, rfl⟩

theorem Begins.punctual_of_run {actions : List Action} (begins : start.Begins)
    (present : start.participants[i]? = some p) (equipped : start.Equipped offset millis p)
    (unset : ∀ clock, .setClock i clock ∉ actions) (run : start.run? actions = some w)
    (first : Ranged start.epoch offset millis 0) (final : Ranged start.epoch offset millis last) :
    w.Punctual i start.epoch offset millis last (start.cycleStart i actions) := by
  have fair : ∀ q, start.participants[i]? = some q → start.Equipped offset millis q := by
    intro q there
    obtain rfl := Option.some.inj (present.symm.trans there)
    exact equipped
  refine run?_keeps_start (P := fun v latest => v.Punctual i start.epoch offset millis last latest)
    (fun v a v' latest h unset change => h.change first final unset change)
    (fun a member clock => ?_) run (begins.punctual fair)
  rintro rfl
  exact unset clock member

/-- A call that is waited for writes what lasts one lease from the start of its cycle, and that is not
    over. -/
theorem Punctual.writes (h : w.Punctual i epoch offset millis last latest) (early : w.now ≤ last)
    (dated : w.Dated i latest) (present : w.participants[i]? = some p) {k : Worker} {call : Call}
    (worker : p.manager.worker = some k) (called : k.call? = some call) {e : Int}
    (writes : call.request.expiration? = some e) : ∃ started clock, latest = some started
      ∧ w.clockOf i = some clock ∧ e = started + millis ∧ clock ≤ e := by
  obtain ⟨c, cycling, rfl⟩ := (dated p present k worker).writes called writes
  obtain ⟨started, _, known, written, pending, within⟩ := (h.worker early p present k worker).cycling c cycling
  refine ⟨started, (w.surroundings p).clock, known, ?_, written, ?_⟩
  · simp [clockOf, present, surroundings]
  · omega

/-- Whatever becomes of calls: when the worker writes, it writes the point one lease after the moment at
    which its cycle began, and the clock of its manager is not past it. A call that it has given up
    writes the point one lease after the start of its own cycle, if it is carried out at all, and that
    was not past as long as the worker waited. -/
theorem written_unexpired {actions : List Action} {a : Action} (begins : start.Begins)
    (present : start.participants[i]? = some p) (equipped : start.Equipped offset millis p)
    (unset : ∀ clock, .setClock i clock ∉ actions) (run : start.run? actions = some w)
    (first : Ranged start.epoch offset millis 0) (final : Ranged start.epoch offset millis w.now)
    (act : w.act? a = some w') {request : Request} {e : Int} (writes : request.expiration? = some e) :
    (.effect .worker request ∈ w.newsOf w' i → ∃ started clock, start.cycleStart i actions = some started
        ∧ w.clockOf i = some clock ∧ e = started + millis ∧ clock ≤ e)
      ∧ (⟨i, request⟩ ∈ w.adrift → ∃ before after v started clock, actions = before ++ after
        ∧ start.run? before = some v ∧ start.cycleStart i before = some started
        ∧ v.clockOf i = some clock ∧ e = started + millis ∧ clock ≤ e) := by
  refine ⟨fun effect => ?_, fun adrift => ?_⟩
  · have punctual := begins.punctual_of_run present equipped unset run first final
    obtain ⟨p₁, present₁⟩ := present_of_run run present
    obtain ⟨p', present'⟩ := present_of_run (run?_singleton act) present₁
    obtain ⟨q, there, ⟨_, silent⟩ | ⟨b, move⟩⟩ := (change_of_act? act).news_cases present'
    · rw [silent] at effect
      cases effect
    · rcases move.work_cases with ⟨k, r, worker, step, _, _, noted⟩ | aside
      · rw [noted] at effect
        obtain ⟨call, called, rfl⟩ := step.effects (List.mem_filterMap.mpr ⟨_, effect, rfl⟩)
        exact punctual.writes le_rfl (begins.dated run) there worker called writes
      · obtain ⟨c, eq⟩ := aside.aloof _ effect rfl
        cases eq
  · obtain ⟨before, after, v, q, k, call, rfl, origin⟩ := begins.origin run adrift
    have spared : ∀ clock, .setClock i clock ∉ before :=
      fun clock member => unset clock (List.mem_append_left _ member)
    have punctual := begins.punctual_of_run present equipped spared origin.run first final
    rw [run?_append, origin.run, Option.bind_some] at run
    have asked : call.request.expiration? = some e := by
      rw [origin.request]
      exact writes
    obtain ⟨started, clock, known, shows, point⟩ := punctual.writes (now_le_of_run run)
      (begins.dated origin.run) origin.present origin.worker origin.called asked
    exact ⟨before, after, v, started, clock, rfl, origin.run, known, shows, point⟩

/-- One manager whose leases last eight milliseconds. -/
def lone : World := (World.initial 0 [.freshMemory]).join "a" (.ofMillis 8) 0 {}

/-- The first question of a cycle takes as long as a lease lasts. -/
def belated : List Action :=
  .start 0 :: turn 0 (.attempt 0) 4
    ++ [.create 0 "x", .setLink 0 { delays := [(.deleteExpired, 8)] }]
    ++ turn 0 .scheduler 2 ++ turn 0 .worker 5 ++ List.replicate 8 .tick ++ turn 0 .worker 1

/-- What is written then ends at the moment at which it is written. -/
theorem written_unexpired_belated : ∃ w w' : World, lone.Begins
    ∧ (∃ p, lone.participants[0]? = some p ∧ lone.Equipped 0 8 p)
    ∧ (∀ clock, .setClock 0 clock ∉ belated) ∧ lone.run? belated = some w
    ∧ Ranged lone.epoch 0 8 0 ∧ Ranged lone.epoch 0 8 w.now ∧ w.act? (.proceed ⟨0, .worker⟩) = some w'
    ∧ .effect .worker (.refreshOwned "a" 8) ∈ w.newsOf w' 0
    ∧ lone.cycleStart 0 belated = some 0 ∧ w.clockOf 0 = some 8 := by
  have begins : lone.Begins := .join (.initial 0 [.freshMemory]) "a" (.ofMillis 8) 0 {}
  obtain ⟨w, w', run, act, now, shows, effect⟩ : ∃ w w' : World, lone.run? belated = some w
      ∧ w.act? (.proceed ⟨0, .worker⟩) = some w' ∧ w.now = 8 ∧ w.clockOf 0 = some 8
      ∧ .effect .worker (.refreshOwned "a" 8) ∈ w.newsOf w' 0 :=
    ⟨_, _, rfl, rfl, rfl, rfl, .head _⟩
  have steady : ∀ a ∈ belated, a.Steady := by decide
  have unset : ∀ clock, .setClock 0 clock ∉ belated := fun clock member => steady _ member
  have equipped : lone.Equipped 0 8 ⟨.fresh "a" (.ofMillis 8), 0, {}, .clear⟩ :=
    ⟨rfl, rfl, by decide⟩
  have first : Ranged lone.epoch 0 8 0 := ⟨by decide, by decide, by decide, by decide⟩
  have final : Ranged lone.epoch 0 8 w.now := by
    rw [now]
    exact ⟨by decide, by decide, by decide, by decide⟩
  obtain ⟨started, clock, known, _, lasts, _⟩ :=
    (written_unexpired begins rfl equipped unset run first final act rfl).1 effect
  obtain rfl : started = 0 := by omega
  exact ⟨w, w', begins, ⟨_, rfl, equipped⟩, unset, run, first, final, act, effect, known, shows⟩

/-- A claim is not answered in time and given up, and so is the cycle. The next one waits for its claim. -/
def cutOff : List Action :=
  .start 0 :: turn 0 (.attempt 0) 4 ++ [.setLink 0 { hanging := [.claimAbsent] }, .create 0 "x"]
    ++ turn 0 .worker 6 ++ turn 0 .scheduler 2 ++ List.replicate 8 .tick ++ turn 0 .worker 6 ++ [.tick]

/-- A database in a file outlives the call: it writes what has expired by then. -/
theorem landed_expired : ∃ (start w w' : World) (p : Participant) (b : Backend) (request : Request),
    start.Begins ∧ start.run? cutOff = some w ∧ w.act? (.land 0) = some w'
      ∧ w.Landed 0 ⟨0, request⟩ p b w' ∧ request.expiration? = some 8 ∧ w.clockOf 0 = some 9
      ∧ w'.stores.map Backend.rows = [[⟨"x", "a", 8⟩]] :=
  ⟨_, _, _, _, _, _, .join (.initial 0 [.freshSqlite]) "a" (.ofMillis 8) 0 {}, rfl, rfl,
    ⟨rfl, rfl, rfl, rfl, rfl⟩, rfl, rfl, rfl⟩

end World

end Leasehold
