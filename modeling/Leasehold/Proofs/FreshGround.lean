import Leasehold.Proofs.CycleCourse
import Leasehold.Proofs.Disabled
import Leasehold.Proofs.Expirations

/-! # How late a lease may be reported

A cycle that runs while leases are held ends a grace window before what it writes expires, so what it
reports as acquired is not yet up for collection by a peer whose clock is a grace window ahead. A cycle
that begins without any may take a whole lease duration, and a first acquisition can be reported later than
that. `Worker.horizon` tells the one limit from the other, and `Worker.InTime` keeps a cycle within it.
-/

namespace Leasehold

namespace Worker

variable {w : Worker} {s s' : Surroundings} {queue : List Command} {store : Backend} {r : WorkerStep}
  {latest : Option Int} {started : Int}

/-! ## Where acquisitions come from -/

theorem not_acquired_apply (w : Worker) (c : Command) (b : Batch) (id : Nat) :
    (id, true) ∉ eventsIn (w.apply c b).2 := by
  cases c with
  | register name id =>
    simp only [apply, register]
    split <;> simp [eventsIn, Note.event?]
  | release name id =>
    simp only [apply, release]
    split
    · simp [eventsIn]
    · split
      · split <;> simp [eventsIn, Note.event?]
      · simp [eventsIn]
  | maintain ticket => simp [apply, eventsIn]

theorem not_acquired_giveUp (w : Worker) (s : Surroundings) (id : Nat) :
    (id, true) ∉ eventsIn (w.giveUp s).2 := by
  rw [eventsIn_giveUp]
  split <;> simp

theorem Move.acquires (move : w.Move s queue store r) {id : Nat} (told : (id, true) ∈ eventsIn r.notes) :
    ∃ c, w.activity = .cycling c ∧ c.stage = .selecting := by
  cases move with
  | @take c _ _ b listening => exact absurd told (not_acquired_apply w c b id)
  | beginCycle draining => exact absurd told List.not_mem_nil
  | beginRelease parting => exact absurd told List.not_mem_nil
  | endRelease releasing due =>
    rw [eventsIn_append, eventsIn_finish, eventsIn_endRelease] at told
    cases told
  | abandonRelease releasing pending late => exact absurd told (not_acquired_giveUp w s id)
  | @resume _ _ c reply cycling due answered =>
    refine ⟨c, cycling, ?_⟩
    by_contra other
    rw [eventsIn_append, eventsIn_finish, eventsIn_resume other] at told
    cases told
  | failCycle cycling due failed =>
    rw [eventsIn_append, eventsIn_finish, eventsIn_failCycle] at told
    exact absurd told (not_acquired_giveUp w s id)
  | @overrun _ _ c cycling pending late =>
    have same : (id, true) ∈ eventsIn (w.failCycle s store.label c (overdue c)).2 := told
    rw [eventsIn_failCycle] at same
    exact absurd same (not_acquired_giveUp w s id)

/-! ## The time that a cycle has -/

/-- The latest reading at which a cycle that began at `started` may report leases: a grace window before
    what it writes expires if leases are held (or at once, if that has passed), a lease duration later if
    none is. -/
def horizon (w : Worker) (settings : Settings) (started expiration : Int) : Int :=
  match w.pledge? with
  | some _ => max started (expiration - settings.graceMillis)
  | none => started + settings.leaseDuration.ceilMillis

/-- A cycle that has not been told yet what is owned ends before its horizon. -/
def InTime (s : Surroundings) (latest : Option Int) (w : Worker) : Prop :=
  ∀ c, w.activity = .cycling c → (∀ name rest, c.stage ≠ .purging name rest) →
    ∃ started, latest = some started ∧ c.expiration = Reading.add started s.settings.leaseMillis
      ∧ s.now ≤ c.deadline ∧ s.clock + c.deadline ≤ w.horizon s.settings started c.expiration + s.now

theorem inTime_fresh (aborted : Bool) : ({ fresh with aborted } : Worker).InTime s latest :=
  fun _ cycling => by cases cycling

theorem InTime.abort (h : w.InTime s latest) (aborted : Bool) :
    ({ w with aborted } : Worker).InTime s latest := h

theorem InTime.frame (h : w.InTime s latest) (now : s'.now = s.now) (clock : s'.clock = s.clock)
    (settings : s'.settings = s.settings) : w.InTime s' latest := by
  unfold InTime
  rw [now, clock, settings]
  exact h

theorem InTime.tick (h : w.InTime s latest) (now : s'.now = s.now + 1) (clock : s'.clock ≤ s.clock + 1)
    (settings : s'.settings = s.settings)
    (waits : ∀ deadline, w.deadline? = some deadline → s.now < deadline) : w.InTime s' latest := by
  intro c cycling asking
  obtain ⟨started, known, written, _, within⟩ := h c cycling asking
  have ahead := waits c.deadline (by simp [deadline?, cycling])
  rw [now, settings]
  refine ⟨started, known, written, ahead, ?_⟩
  push_cast
  omega

theorem allowance_le_horizon (sound : w.Sound s) (inside : Reading.min ≤ s.clock) :
    s.clock + (w.allowance s).ceilMillis
      ≤ w.horizon s.settings s.clock (Reading.add s.clock s.settings.leaseMillis) := by
  unfold horizon
  cases pledged : w.pledge? with
  | none =>
    rw [allowance_eq, pledged]
  | some point =>
    have known : w.confirmedUntil = some point := (Option.ite_none_right_eq_some.mp pledged).2
    have recent := sound.confirmed point known
    rcases before_allowance inside point pledged with soon | before
    · dsimp only
      omega
    · dsimp only
      push_cast at before
      omega

theorem pledge_of_holding (sound : w.Sound s) (keyed : w.slots.Keyed) (holding : w.slots.holding = true) :
    ∃ point, w.confirmedUntil = some point ∧ w.pledge? = some point := by
  obtain ⟨⟨name, slot⟩, member, acquired⟩ := List.any_eq_true.mp holding
  obtain ⟨point, known⟩ := sound.held name slot (Slots.find?_of_mem keyed member) acquired
  exact ⟨point, known, by rw [pledge?, if_pos holding, known]⟩

theorem horizon_eq (sound : w.Sound s) (keyed : w.slots.Keyed) (settings : Settings)
    (started expiration : Int) : w.horizon settings started expiration
      = if w.slots.holding then max started (expiration - settings.graceMillis)
        else started + settings.leaseDuration.ceilMillis := by
  unfold horizon
  cases holding : w.slots.holding with
  | false =>
    have none : w.pledge? = none := by simp [pledge?, holding]
    rw [none]
    rfl
  | true =>
    obtain ⟨point, _, pledged⟩ := pledge_of_holding sound keyed holding
    rw [pledged]
    rfl

theorem InTime.move (h : w.InTime s latest) (sound : w.Sound s) (inside : Reading.min ≤ s.clock)
    (move : w.Move s queue store r) :
    r.worker.InTime s (if r.notes.any Note.beginsCycle then some s.clock else latest) := by
  intro c' cycling' asking'
  rcases move.start_cases with ⟨begins, tickets, eq⟩ | ⟨silent, goesOn⟩
  · rw [eq] at cycling' ⊢
    cases cycling'
    have allowed := allowance_le_horizon sound inside
    refine ⟨s.clock, if_pos begins, rfl, Nat.le_add_right _ _, ?_⟩
    change s.clock + ((s.now + (w.allowance s).ceilMillis : Nat) : Int)
      ≤ w.horizon s.settings s.clock (Reading.add s.clock s.settings.leaseMillis) + s.now
    push_cast
    omega
  · obtain ⟨c, cycling, expiration, deadline, _⟩ := goesOn c' cycling'
    rcases move.cycle_step cycling with ⟨reply, _, rfl⟩ | ⟨_, e, _, _, _, failed, _⟩
    · obtain ⟨_, _, early⟩ := resume_goesOn cycling'
      obtain ⟨other, asking⟩ := early asking'
      -- Nothing is learned by this answer, so the leases that are held are the same.
      rcases w.resume_eq s c reply with ⟨_, activity, eq⟩ | ⟨selecting, _⟩
      · rw [silent, expiration, deadline]
        have same : (w.resume s c reply).1.horizon = w.horizon := by rw [eq]; rfl
        rw [same]
        exact h c cycling asking
      · exact absurd selecting other
    · rw [failed] at cycling'
      cases cycling'

end Worker

/-! ## Runs -/

namespace World

variable {start w w' : World} {i : Nat} {p p' : Participant} {a : Action} {latest : Option Int}

/-- A participant whose clock is not set is as it was a moment before, has moved, or has let a quiet
    millisecond pass. -/
theorem Change.passes (change : w.Change a w') (unset : ∀ clock, a ≠ .setClock i clock)
    (present' : w'.participants[i]? = some p') :
    (∃ p, w.participants[i]? = some p ∧ p'.store = p.store ∧ (w'.surroundings p').now = (w.surroundings p).now
        ∧ (w'.surroundings p').clock = (w.surroundings p).clock
        ∧ (p'.manager = p.manager ∧ w.newsOf w' i = []
          ∨ ∃ b, p.manager.Move (w.surroundings p) (w.storeOf p) p'.manager b (w.newsOf w' i)))
      ∨ w.isQuiet = true ∧ w' = w.elapse 1 ∧ w.participants[i]? = some p' := by
  rcases change.time_cases with ⟨now, time⟩ | ⟨quiet, rfl⟩
  · obtain ⟨p, present, moves⟩ := change.news_cases present'
    obtain ⟨q, present₂, store, clock⟩ := change.stays present'
    obtain rfl : p = q := Option.some.inj (present.symm.trans present₂)
    replace clock := clock.resolve_right fun ⟨clock, set⟩ => unset clock set
    have shows : (w'.surroundings p').clock = (w.surroundings p).clock := by
      simp only [surroundings, clock, time]
    exact .inl ⟨p, present, store, now, shows, moves⟩
  · exact .inr ⟨quiet, rfl, present'⟩

/-- The worker of a participant keeps to the times that it has. -/
structure InTime (w : World) (i : Nat) (latest : Option Int) : Prop where
  placed : ∀ p, w.participants[i]? = some p → p.store < w.stores.length
  sound : ∀ p, w.participants[i]? = some p → ∀ k, p.manager.worker = some k → k.Sound (w.surroundings p)
  worker : ∀ p, w.participants[i]? = some p → ∀ k, p.manager.worker = some k →
    k.InTime (w.surroundings p) latest

theorem Begins.inTime (begins : start.Begins)
    (placed : ∀ p, start.participants[i]? = some p → p.store < start.stores.length) :
    start.InTime i latest := by
  have idle {p : Participant} (present : start.participants[i]? = some p) : p.manager.worker = none := by
    obtain ⟨owner, settings, eq⟩ := begins.manager_fresh (List.mem_of_getElem? present)
    rw [eq]
    rfl
  refine ⟨placed, fun p present k there => ?_, fun p present k there => ?_⟩
  · rw [idle present] at there
    cases there
  · rw [idle present] at there
    cases there

theorem InTime.elapse (h : w.InTime i latest) (quiet : w.isQuiet = true) :
    (w.elapse 1).InTime i (w.startAfter (w.elapse 1) i latest) := by
  have past : (w.elapse 1).notesOf i = w.notesOf i := rfl
  rw [startAfter_of_still past]
  refine ⟨h.placed, fun p present k there => ?_, fun p present k there => ?_⟩
  · exact (h.sound p present k there).later rfl rfl (reading_elapse p.clock w).1
  · refine Worker.InTime.tick (s := w.surroundings p) (h.worker p present k there) rfl
      (reading_elapse p.clock w).2 rfl fun deadline due => ?_
    have rests := (resting_of_quiet quiet present (h.placed p present)).worker k there
    rcases Worker.rest_cases rests.2 with ⟨waiting, _⟩ | ⟨_, deadline', _, due', _, ahead⟩
    · simp [Worker.deadline?, waiting] at due
    · rw [due'] at due
      exact Option.some.inj due ▸ ahead

theorem InTime.change (h : w.InTime i latest) (unset : ∀ clock, a ≠ .setClock i clock)
    (change : w.Change a w') : w'.InTime i (w.startAfter w' i latest) := by
  by_cases passed : w.isQuiet = true ∧ w' = w.elapse 1
  · obtain ⟨quiet, rfl⟩ := passed
    exact h.elapse quiet
  have moves {p' : Participant} (present' : w'.participants[i]? = some p') :=
    (change.passes unset present').resolve_right fun ⟨quiet, eq, _⟩ => passed ⟨quiet, eq⟩
  refine ⟨fun p' present' => ?_, fun p' present' k there => ?_, fun p' present' k there => ?_⟩
  · obtain ⟨p, present, store, _⟩ := moves present'
    rw [store, change.length_stores]
    exact h.placed p present
  · obtain ⟨p, present, _, _, clock, ⟨same, _⟩ | ⟨b, move⟩⟩ := moves present'
    · exact (h.sound p present k (same ▸ there)).later (congrArg Manager.owner same)
        (congrArg Manager.settings same) (le_of_eq clock.symm)
    · have sound := move.sound (h.sound p present) there
      exact sound.later move.frame.1 move.frame.2 (le_of_eq clock.symm)
  · obtain ⟨p, present, _, now, clock, ⟨same, silent⟩ | ⟨b, move⟩⟩ := moves present'
    · rw [startAfter, silent]
      exact (h.worker p present k (same ▸ there)).frame now clock (congrArg Manager.settings same)
    · have shows : w.clockOf i = some (w.surroundings p).clock := by simp [clockOf, present, surroundings]
      rw [startAfter, shows]
      apply Worker.InTime.frame (s := w.surroundings p) _ now clock move.frame.2
      rcases move.work_cases with ⟨k₀, r, present₀, step, eq, _, noted⟩ | aside
      · rw [noted]
        rw [eq, Manager.publishAll_eq] at there
        cases there
        exact (h.worker p present k₀ present₀).move (h.sound p present k₀ present₀)
          (p.clock.min_le_reading w.trueTime) step
      · rw [begins_of_aloof aside.aloof]
        obtain ⟨k₀, aborted, origin, rfl⟩ := aside.worker k there
        rcases origin with present₀ | rfl
        · exact (h.worker p present k₀ present₀).abort aborted
        · exact Worker.inTime_fresh aborted

/-- A lease is reported as acquired while the cycle that reports it has time: if leases were held before
    it reported any, until a grace window before what it has written expires; if none was, until a
    lease duration after it began. -/
theorem acquired_in_time {actions : List Action} (begins : start.Begins)
    (present : start.participants[i]? = some p) (placed : p.store < start.stores.length)
    (unset : ∀ clock, .setClock i clock ∉ actions) (run : start.run? actions = some w)
    (act : w.act? a = some w') {name : String} {id : Nat}
    (told : .event name id true ∈ w.newsOf w' i) :
    ∃ q k c started clock, w.participants[i]? = some q ∧ q.manager.worker = some k
      ∧ k.activity = .cycling c ∧ start.cycleStart i actions = some started ∧ w.clockOf i = some clock
      ∧ c.expiration = Reading.add started q.manager.settings.leaseMillis
      ∧ clock ≤ if k.slots.holding then max started (c.expiration - q.manager.settings.graceMillis)
        else started + q.manager.settings.leaseDuration.ceilMillis := by
  have inTime : w.InTime i (start.cycleStart i actions) := by
    refine run?_keeps_start (P := fun v latest => v.InTime i latest)
      (fun v a v' latest h unset change => h.change unset change) (fun a member clock => ?_) run
      (begins.inTime fun q there => ?_)
    · rintro rfl
      exact unset clock member
    · obtain rfl := Option.some.inj (present.symm.trans there)
      exact placed
  obtain ⟨p₁, present₁⟩ := present_of_run run present
  obtain ⟨p', present'⟩ := present_of_run (run?_singleton act) present₁
  obtain ⟨q, there, ⟨_, silent⟩ | ⟨b, move⟩⟩ := (change_of_act? act).news_cases present'
  · rw [silent] at told
    cases told
  · rcases move.work_cases with ⟨k, r, worker, step, _, _, noted⟩ | aside
    · rw [noted] at told
      have acquired : (id, true) ∈ eventsIn r.notes := List.mem_filterMap.mpr ⟨_, told, rfl⟩
      obtain ⟨c, cycling, selecting⟩ := step.acquires acquired
      obtain ⟨started, known, written, pending, within⟩ :=
        inTime.worker q there k worker c cycling (by simp [selecting])
      refine ⟨q, k, c, started, (w.surroundings q).clock, there, worker, cycling, known, ?_, written, ?_⟩
      · simp [clockOf, there, surroundings]
      · have reachable : w.Reachable := ⟨start, actions, begins, run⟩
        have keyed := (reachable.truthful (List.mem_of_getElem? there)).slots_keyed worker
        rw [← Worker.horizon_eq (inTime.sound q there k worker) keyed]
        change _ ≤ k.horizon (w.surroundings q).settings started c.expiration
        omega
    · obtain ⟨c, eq⟩ := aside.aloof _ told rfl
      cases eq

/-- A second lease is claimed while one is held, and the store takes its time to tell what is owned. -/
def leisurely : List Action :=
  .start 0 :: turn 0 (.attempt 0) 4 ++ [.create 0 "x"] ++ turn 0 .scheduler 2 ++ turn 0 .worker 9
    ++ [.create 0 "y", .setLink 0 { delays := [(.selectOwned, 6)] }] ++ turn 0 .worker 7
    ++ turn 0 .scheduler 2 ++ List.replicate 4 .tick ++ turn 0 .scheduler 3 ++ List.replicate 2 .tick
    ++ [.pick ⟨0, .worker⟩]

/-- The second lease is reported at the last moment at which this may happen. -/
theorem acquired_in_time_leisurely : ∃ w w' : World, lone.Begins
    ∧ (∃ p, lone.participants[0]? = some p ∧ p.store < lone.stores.length)
    ∧ (∀ clock, .setClock 0 clock ∉ leisurely) ∧ lone.run? leisurely = some w
    ∧ w.act? (.proceed ⟨0, .worker⟩) = some w' ∧ .event "y" 1 true ∈ w.newsOf w' 0 ∧ w.clockOf 0 = some 6
    ∧ ∃ q k c started, w.participants[0]? = some q ∧ q.manager.worker = some k ∧ k.activity = .cycling c
      ∧ k.slots.holding = true ∧ lone.cycleStart 0 leisurely = some started
      ∧ 6 ≤ max started (c.expiration - 2) := by
  have begins : lone.Begins := .join (.initial 0 [.freshMemory]) "a" (.ofMillis 8) 0 {}
  have steady : ∀ a ∈ leisurely, a.Steady := by decide
  have unset : ∀ clock, .setClock 0 clock ∉ leisurely := fun clock member => steady _ member
  obtain ⟨w, w', run, act, shows, told, held⟩ : ∃ w w' : World, lone.run? leisurely = some w
      ∧ w.act? (.proceed ⟨0, .worker⟩) = some w' ∧ w.clockOf 0 = some 6 ∧ .event "y" 1 true ∈ w.newsOf w' 0
      ∧ ∀ q k, w.participants[0]? = some q → q.manager.worker = some k →
        k.slots.holding = true ∧ q.manager.settings.graceMillis = 2 := by
    refine ⟨_, _, rfl, rfl, rfl, .tail _ (.tail _ (.head _)), fun q k there worker => ?_⟩
    cases there
    cases worker
    exact ⟨rfl, rfl⟩
  obtain ⟨q, k, c, started, clock, there, worker, cycling, known, shows', _, early⟩ :=
    acquired_in_time begins rfl (by decide) unset run act told
  obtain ⟨holding, grace⟩ := held q k there worker
  obtain rfl : clock = 6 := Option.some.inj (shows'.symm.trans shows)
  rw [if_pos holding, grace] at early
  exact ⟨w, w', begins, ⟨_, rfl, by decide⟩, unset, run, act, told, shows, q, k, c, started, there, worker,
    cycling, holding, known, early⟩

/-- The store takes its time to tell a manager what it owns that holds nothing yet. -/
def tardy : List Action :=
  .start 0 :: turn 0 (.attempt 0) 4 ++ [.create 0 "x", .setLink 0 { delays := [(.selectOwned, 7)] }]
    ++ turn 0 .scheduler 2 ++ turn 0 .worker 8 ++ List.replicate 7 .tick ++ [.pick ⟨0, .worker⟩]

/-- A first acquisition may be reported later than a grace window before its row expires. -/
theorem late_first_report : ¬ ∀ (start w w' : World) (actions : List Action) (a : Action) (i : Nat)
    (p q : Participant) (k : Worker) (c : Cycle) (clock : Int) (name : String) (id : Nat), start.Begins →
    start.participants[i]? = some p → p.manager.settings.enabled = true → p.clock.frozen = none →
    (∀ clock, .setClock i clock ∉ actions) → start.run? actions = some w → w.act? a = some w' →
    .event name id true ∈ w.newsOf w' i → w.participants[i]? = some q → q.manager.worker = some k →
    k.activity = .cycling c → w.clockOf i = some clock →
    clock ≤ c.expiration - q.manager.settings.graceMillis := by
  intro claim
  have begins : lone.Begins := .join (.initial 0 [.freshMemory]) "a" (.ofMillis 8) 0 {}
  have steady : ∀ a ∈ tardy, a.Steady := by decide
  have early := claim lone _ _ tardy (.proceed ⟨0, .worker⟩) 0 _ _ _ _ 7 "x" 0 begins rfl rfl rfl
    (fun clock member => steady _ member) rfl rfl (.tail _ (.tail _ (.head _))) rfl rfl rfl rfl
  exact absurd early (by decide)

end World

end Leasehold
