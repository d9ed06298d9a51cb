import Leasehold.Proofs.Running

/-! # The pace of a manager whose store answers at once

A cycle that is answered at once ends at the moment at which it began, so what it confirms lasts one
lease duration from then on, and the scheduler wakes after half of that, rounded up to a millisecond.
`Manager.Paced` ties confirmation, sleep and the local clock together; every move keeps it, and so does
a millisecond in which nothing happens.
-/

namespace Leasehold

namespace Settings

variable {settings : Settings}

theorem validate_iff (settings : Settings) :
    settings.validate = .ok () ↔ shortestLease.nanos ≤ settings.leaseDuration.nanos := by
  unfold validate
  split
  · simp only [reduceCtorEq, false_iff]
    omega
  · simp only [true_iff]
    omega

/-- The milliseconds of a lease are within the range of a clock. -/
def InRange (settings : Settings) : Prop := (settings.leaseDuration.wholeMillis : Int) ≤ Reading.max

instance (settings : Settings) : Decidable settings.InRange := inferInstanceAs (Decidable (_ ≤ _))

theorem InRange.leaseMillis (ranged : settings.InRange) :
    settings.leaseMillis = settings.leaseDuration.wholeMillis := by
  apply Reading.clamp_eq_self (x := settings.leaseDuration.wholeMillis)
  exact ⟨le_trans (by decide) (Int.natCast_nonneg _), ranged⟩

end Settings

theorem Settings.graceMillis_nonneg (settings : Settings) : 0 ≤ settings.graceMillis := by
  have le : Reading.clamp 0 ≤ settings.graceMillis :=
    Reading.clamp_mono (Int.natCast_nonneg _)
  exact le

namespace Call

theorem isReady_finish (c : Call) (caller : Caller) (trueTime : Int) {store : Backend}
    (ready : store.isReady = true) (keeps : c.request ≠ .dropSchema) :
    (c.finish caller trueTime store).2.1.isReady = true := by
  unfold finish
  cases c.fate with
  | refuse => exact ready
  | answer | lose => exact Backend.isReady_perform ready _ keeps

/-- A call on a clear link is answered at once. -/
structure Prompt (now : Nat) (c : Call) : Prop where
  answer : c.fate = .answer
  due : c.isDue now = true

theorem prompt_place (now : Nat) (request : Request) : (place .clear now request).Prompt now :=
  ⟨by simp [place, Link.clear], by simp [place, Link.clear, isDue, Link.delay]⟩

theorem Prompt.not_pending {c : Call} {now : Nat} (h : c.Prompt now) : ¬ c.isDue now = false := by
  simp [h.due]

theorem Prompt.not_failed {c : Call} {now : Nat} (h : c.Prompt now) {store : Backend}
    (ready : store.isReady = true) (caller : Caller) (trueTime : Int) (e : LeaseError) :
    (c.finish caller trueTime store).1 ≠ .error e := by
  obtain ⟨reply, answered⟩ := Backend.perform_ok ready (c.link.storeClock trueTime) c.request
  simp [finish, h.answer, answered]

theorem isDue_iff {c : Call} {now : Nat} : c.isDue now = true ↔ ∃ due, c.due = some due ∧ due ≤ now := by
  simp [isDue, Option.any_eq_true]

theorem Prompt.later {c : Call} {now now' : Nat} (h : c.Prompt now) (le : now ≤ now') :
    c.Prompt now' := by
  obtain ⟨due, there, past⟩ := isDue_iff.mp h.due
  exact ⟨h.answer, isDue_iff.mpr ⟨due, there, le_trans past le⟩⟩

end Call

namespace Worker

variable {w : Worker} {s : Surroundings} {queue : List Command} {store : Backend} {r : WorkerStep}

/-- Every call that a worker waits for after a step has begun in this step. -/
theorem Move.placed (move : w.Move s queue store r) {call : Call} (called : r.worker.call? = some call) :
    ∃ request, call = Call.place s.link s.now request := by
  have idle {w' : Worker} {b : Batch} (eq : w'.activity = afterCommand b) : w'.call? = none := by
    rcases idle_afterCommand b with h | ⟨_, h⟩ <;> simp [call?, eq, h]
  have purged (w : Worker) (c : Cycle) (names : List String) {call : Call}
      (called : (w.purge s c names).1.call? = some call) :
      ∃ request, call = Call.place s.link s.now request := by
    cases names with
    | nil => cases called
    | cons name rest =>
      cases called
      exact ⟨_, rfl⟩
  cases move with
  | @take c _ _ b listening =>
    rcases w.apply_activity c b with ⟨eq, _⟩ | ⟨⟨name, eq, _⟩, _⟩ | ⟨ticket, _, eq⟩
    · rw [idle eq] at called
      cases called
    · simp [call?, eq] at called
    · simp [call?, eq] at called
  | beginCycle draining =>
    cases called
    exact ⟨_, rfl⟩
  | beginRelease parting =>
    cases called
    exact ⟨_, rfl⟩
  | @endRelease _ _ r releasing due =>
    rw [idle (b := r.batch) rfl] at called
    cases called
  | @abandonRelease _ _ r releasing pending late =>
    rw [idle (b := r.batch) rfl] at called
    cases called
  | @resume _ _ c reply cycling due answered =>
    simp only [Worker.resume] at called
    split at called
    · cases called
      exact ⟨_, rfl⟩
    · split at called
      · cases called
        exact ⟨_, rfl⟩
      · cases called
        exact ⟨_, rfl⟩
    · cases called
      exact ⟨_, rfl⟩
    · exact purged _ _ _ called
    · exact purged _ _ _ called
  | failCycle cycling due failed => cases called
  | overrun cycling pending late => cases called

theorem Move.confirmed_cases (move : w.Move s queue store r) :
    r.worker.confirmedUntil = w.confirmedUntil
      ∨ ∃ c, w.activity = .cycling c ∧ c.call.fate = .answer
        ∧ r.worker.confirmedUntil = some c.expiration := by
  cases move with
  | @take c _ _ b listening =>
    obtain ⟨slots, activity, eq⟩ := w.apply_eq c b
    exact .inl (by rw [eq])
  | beginCycle | beginRelease | endRelease => exact .inl rfl
  | abandonRelease releasing pending late => exact .inl (w.confirmed_giveUp s)
  | @resume _ _ c reply cycling due answered =>
    rcases w.resume_eq s c reply with ⟨_, activity, eq⟩ | ⟨_, activity, eq⟩
    · exact .inl (by rw [eq])
    · exact .inr ⟨c, cycling, Call.fate_of_answered answered, by rw [eq]; rfl⟩
  | failCycle cycling due failed => exact .inl (w.confirmed_giveUp s)
  | overrun cycling pending late => exact .inl (w.confirmed_giveUp s)

/-- A worker in a cycle has just begun it, or goes on with it after an answer: what the cycle writes and
    how long it may take is settled when it begins. -/
theorem Move.cycle_cases (move : w.Move s queue store r) {c' : Cycle}
    (cycling' : r.worker.activity = .cycling c') :
    (∃ tickets, r.worker = (w.beginCycle s tickets).1)
      ∨ ∃ c stage call, w.activity = .cycling c ∧ c.call.fate = .answer
        ∧ c' = { c with stage, call } := by
  cases move with
  | @take c _ _ b listening =>
    rcases w.apply_activity c b with ⟨eq, _⟩ | ⟨⟨name, eq, _⟩, _⟩ | ⟨ticket, _, eq⟩
    · exact absurd (eq.symm.trans cycling') (afterCommand_ne_cycling b c')
    · cases eq.symm.trans cycling'
    · cases eq.symm.trans cycling'
  | @beginCycle _ b draining => exact .inl ⟨b.tickets, rfl⟩
  | beginRelease parting => cases cycling'
  | @endRelease _ _ r releasing due => exact absurd cycling' (afterCommand_ne_cycling r.batch c')
  | @abandonRelease _ _ r releasing pending late =>
    exact absurd cycling' (afterCommand_ne_cycling r.batch c')
  | @resume _ _ c reply cycling due answered =>
    rcases w.resume_cases s c reply with ⟨stage, call, cycling₁⟩ | ⟨waiting, _⟩
    · cases cycling₁.symm.trans cycling'
      exact .inr ⟨c, stage, call, cycling, Call.fate_of_answered answered, rfl⟩
    · cases waiting.symm.trans cycling'
  | failCycle cycling due failed => cases cycling'
  | overrun cycling pending late => cases cycling'

theorem not_acknowledged_finish (c : Call) (caller : Caller) (trueTime : Int) (store : Backend)
    (t : Nat) : .acknowledged t ∉ (c.finish caller trueTime store).2.2 := by
  intro member
  rcases Call.mem_finish member with eq | ⟨_, eq⟩ | ⟨_, eq⟩ | ⟨_, _, _, eq⟩ <;> cases eq

/-- A cycle that is over has confirmed what it has written. -/
theorem confirmed_of_acknowledged {c : Cycle} {reply : Reply} (sound : w.Cycling s c) {t : Nat}
    (told : .acknowledged t ∈ (w.resume s c reply).2) :
    (w.resume s c reply).1.confirmedUntil = some c.expiration := by
  have asked {stage : Stage} {request : Request} : .acknowledged t ∉ (w.askNext s c stage request).2 := by
    simp [askNext, ask]
  unfold resume at told ⊢
  split at told
  · exfalso
    simp only at told
    split at told
    · rcases List.mem_cons.mp told with eq | rest
      · cases eq
      · exact asked rest
    · exact asked told
  · exfalso
    simp only at told
    split at told
    · exact asked told
    · exact asked told
  · exact absurd told asked
  · obtain ⟨activity, purged⟩ := (w.reconcile s reply.nameList c.expiration).1.purge_eq s c
      (w.orphans reply.nameList)
    simp only [purged]
    rfl
  · rename_i name rest stage
    obtain ⟨activity, purged⟩ := w.purge_eq s c rest
    rw [purged]
    exact (sound.purging name rest stage).2

/-- With a store that answers at once, a cycle is acknowledged only after it has succeeded. -/
theorem Move.acknowledged (move : w.Move s queue store r) (sound : w.Sound s)
    (prompt : ∀ call, w.call? = some call → call.Prompt s.now) (ready : store.isReady = true)
    {t : Nat} (told : .acknowledged t ∈ r.notes) :
    ∃ c, w.activity = .cycling c ∧ r.worker.confirmedUntil = some c.expiration := by
  cases move with
  | @take c _ _ b listening =>
    rcases List.mem_cons.mp told with eq | rest
    · cases eq
    · cases remarks_apply c b _ rest
  | beginCycle draining => simp [Worker.beginCycle, ask] at told
  | beginRelease parting => simp [Worker.beginRelease, ask] at told
  | @endRelease _ _ r releasing due =>
    rcases List.mem_append.mp told with early | last
    · exact absurd early (not_acknowledged_finish _ _ _ _ t)
    · cases remarks_endRelease r _ _ last
  | @abandonRelease _ _ r releasing pending late =>
    exact absurd pending (prompt r.call (by simp [call?, releasing])).not_pending
  | @resume _ _ c reply cycling due answered =>
    rcases List.mem_append.mp told with early | last
    · exact absurd early (not_acknowledged_finish _ _ _ _ t)
    · exact ⟨c, cycling, confirmed_of_acknowledged (sound.cycling c cycling) last⟩
  | @failCycle _ _ c e cycling due failed =>
    exact absurd failed ((prompt c.call (by simp [call?, cycling])).not_failed ready _ _ e)
  | @overrun _ _ c cycling pending late =>
    exact absurd pending (prompt c.call (by simp [call?, cycling])).not_pending

end Worker

theorem Scheduler.turns {sc next : Scheduler} {now : Nat} {interval : Duration} {ticket : Option Nat}
    (step : sc.step now interval = some (next, ticket)) :
    (∀ wake, next.pacing = .sleeping wake →
        sc.pacing = .acknowledged ∧ wake = now + interval.ceilMillis)
      ∧ next.pacing ≠ .acknowledged := by
  unfold Scheduler.step at step
  split at step
  · cases step
    exact ⟨nofun, nofun⟩
  · simp at step
  · cases step
    refine ⟨fun wake sleeps => ⟨by assumption, ?_⟩, nofun⟩
    cases sleeps
    rfl
  · split at step
    · cases step
      exact ⟨nofun, nofun⟩
    · simp at step

namespace Manager

variable {m m' : Manager} {s s' : Surroundings} {store b : Backend} {notes : List Note}

/-- Milliseconds between the end of one cycle and the request for the next. -/
def pause (s : Surroundings) : Nat := s.settings.interval.ceilMillis

/-- What the worker has confirmed lasts until the next cycle, and a lease duration beyond the pause. -/
structure Paced (s : Surroundings) (m : Manager) : Prop where
  cycling : ∀ w c, m.worker = some w → w.activity = .cycling c →
    c.expiration = s.clock + s.settings.leaseMillis
  confirmed : ∀ w point, m.worker = some w → w.confirmedUntil = some point →
    s.clock + s.settings.leaseMillis ≤ point + pause s
  acknowledged : ∀ w sc, m.worker = some w → m.scheduler = some sc → sc.pacing = .acknowledged →
    w.confirmedUntil = some (s.clock + s.settings.leaseMillis)
  sleeping : ∀ w sc wake, m.worker = some w → m.scheduler = some sc → sc.pacing = .sleeping wake →
    wake ≤ s.now + pause s ∧ ∀ point, w.confirmedUntil = some point →
      s.clock + s.settings.leaseMillis + wake ≤ point + pause s + s.now

theorem paced_of_none (none : m.worker = none) : m.Paced s := by
  constructor <;> simp [none]

theorem Paced.work (h : m.Paced s) {k : Worker} {r : WorkerStep} (present : m.worker = some k)
    (step : k.Move s m.queue store r) (sound : k.Sound s)
    (fits : Reading.add s.clock s.settings.leaseMillis = s.clock + s.settings.leaseMillis)
    (prompt : ∀ call, k.call? = some call → call.Prompt s.now) (ready : store.isReady = true)
    (worker : m'.worker = some r.worker)
    (scheduler : m'.scheduler = m.scheduler.map (r.notes.foldl Scheduler.hear)) : m'.Paced s := by
  have known : r.worker.confirmedUntil = k.confirmedUntil
      ∨ r.worker.confirmedUntil = some (s.clock + s.settings.leaseMillis) := by
    rcases step.confirmed_cases with same | ⟨c, cycling, _, written⟩
    · exact .inl same
    · rw [h.cycling k c present cycling] at written
      exact .inr written
  refine ⟨fun w c there cycling => ?_, fun w point there confirmed => ?_,
    fun w sc there there' waits => ?_, fun w sc wake there there' sleeps => ?_⟩
  all_goals
    rw [worker] at there
    obtain rfl := Option.some.inj there
  · rcases step.cycle_cases cycling with ⟨tickets, new⟩ | ⟨c₀, stage, call, before, _, rfl⟩
    · rw [new] at cycling
      cases cycling
      exact fits
    · exact h.cycling k c₀ present before
  · rcases known with same | new
    · exact h.confirmed k point present (same ▸ confirmed)
    · have point_eq := Option.some.inj (new.symm.trans confirmed)
      omega
  · rw [scheduler] at there'
    obtain ⟨sc₀, before, rfl⟩ := Option.map_eq_some_iff.mp there'
    rcases sc₀.hear_cases r.notes with ⟨unheard, _⟩ | ⟨⟨t, _, told⟩, _⟩
    · rw [unheard] at waits
      rcases known with same | new
      · exact same.trans (h.acknowledged k sc₀ present before waits)
      · exact new
    · obtain ⟨c, cycling, written⟩ := step.acknowledged sound prompt ready told
      rw [written, h.cycling k c present cycling]
  · rw [scheduler] at there'
    obtain ⟨sc₀, before, rfl⟩ := Option.map_eq_some_iff.mp there'
    rcases sc₀.hear_cases r.notes with ⟨unheard, _⟩ | ⟨_, heard⟩
    · rw [unheard] at sleeps
      obtain ⟨soon, lasts⟩ := h.sleeping k sc₀ wake present before sleeps
      refine ⟨soon, fun point confirmed => ?_⟩
      rcases known with same | new
      · exact lasts point (same ▸ confirmed)
      · have point_eq := Option.some.inj (new.symm.trans confirmed)
        omega
    · cases heard.symm.trans sleeps

theorem Paced.pace (h : m.Paced s) (settings : m.settings = s.settings) {sc next : Scheduler}
    {ticket : Option Nat} (present : m.scheduler = some sc)
    (step : sc.step s.now m.settings.interval = some (next, ticket))
    (worker : m'.worker = m.worker) (scheduler : m'.scheduler = some next) : m'.Paced s := by
  have turned := Scheduler.turns step
  refine ⟨fun w c there => h.cycling w c (worker ▸ there),
    fun w point there => h.confirmed w point (worker ▸ there),
    fun w sc' _ there' waits => ?_, fun w sc' wake there there' sleeps => ?_⟩
  all_goals
    rw [scheduler] at there'
    obtain rfl := Option.some.inj there'
  · exact absurd waits turned.2
  · obtain ⟨done, rfl⟩ := turned.1 wake sleeps
    rw [settings, ← pause]
    refine ⟨le_rfl, fun point confirmed => ?_⟩
    have now := h.acknowledged w sc (worker ▸ there) present done
    have point_eq := Option.some.inj (now.symm.trans confirmed)
    push_cast
    omega

/-- A manager whose calls are answered at once keeps its pace in every move. -/
theorem Paced.move (h : m.Paced s) (move : m.Move s store m' b notes) (staged : m.Staged)
    (modest : m.Modest) (sound : ∀ w, m.worker = some w → w.Sound s)
    (settings : m.settings = s.settings)
    (fits : Reading.add s.clock s.settings.leaseMillis = s.clock + s.settings.leaseMillis)
    (prompt : ∀ w call, m.worker = some w → w.call? = some call → call.Prompt s.now)
    (ready : m.worker.isSome = true → store.isReady = true) : m'.Paced s := by
  cases move.live staged modest with
  | gone none _ => exact paced_of_none none
  | launch _ worker scheduler _ =>
    refine ⟨fun w c present cycling => ?_, fun w point present confirmed => ?_,
      fun w sc _ present waits => ?_, fun w sc wake _ present sleeps => ?_⟩
    · rw [worker] at present
      cases present
      cases cycling
    · rw [worker] at present
      cases present
      cases confirmed
    · cases (scheduler sc present).symm.trans waits
    · cases (scheduler sc present).symm.trans sleeps
  | @work k r present step worker scheduler queue =>
    exact h.work present step (sound k present) fits (prompt k · present) (ready (by simp [present]))
      worker scheduler
  | pace present step worker scheduler queue => exact h.pace settings present step worker scheduler
  | @aside _ _ k aborted present worker scheduler queue =>
    refine ⟨fun w c there => ?_, fun w point there => ?_, fun w sc there there' waits => ?_,
      fun w sc wake there there' sleeps => ?_⟩
    all_goals
      rw [worker] at there
      obtain rfl := Option.some.inj there
    · exact h.cycling k c present
    · exact h.confirmed k point present
    · obtain ⟨sc₀, present', pacing⟩ := scheduler sc there'
      exact h.acknowledged k sc₀ present present' (pacing ▸ waits)
    · obtain ⟨sc₀, present', pacing⟩ := scheduler sc there'
      exact h.sleeping k sc₀ wake present present' (pacing ▸ sleeps)

end Manager

/-! ## Passing time -/

namespace Worker

variable {w : Worker} {s : Surroundings} {queue : List Command} {store : Backend}

/-- A worker that has nothing to do waits for a command, or for the store and still may. -/
theorem rest_cases (rests : w.step s queue store = none) :
    w.activity = .waiting ∧ queue = []
      ∨ ∃ call deadline, w.call? = some call ∧ w.deadline? = some deadline
        ∧ call.isDue s.now = false ∧ s.now < deadline := by
  unfold step at rests
  split at rests
  · split at rests
    · exact .inl ⟨by assumption, rfl⟩
    · simp at rests
  · split at rests <;> simp at rests
  · simp at rests
  · rename_i r releasing
    by_cases due : r.call.isDue s.now = true
    · simp [due] at rests
    · by_cases late : r.deadline ≤ s.now
      · simp [due, late] at rests
      · refine .inr ⟨r.call, r.deadline, ?_, ?_, by simpa using due, by omega⟩
        · simp [call?, releasing]
        · simp [deadline?, releasing]
  · rename_i c cycling
    by_cases due : c.call.isDue s.now = true
    · simp only [due, if_true] at rests
      split at rests <;> simp at rests
    · by_cases late : c.deadline ≤ s.now
      · simp [due, late] at rests
      · refine .inr ⟨c.call, c.deadline, ?_, ?_, by simpa using due, by omega⟩
        · simp [call?, cycling]
        · simp [deadline?, cycling]

end Worker

theorem Scheduler.rest_cases {sc : Scheduler} {now : Nat} {interval : Duration}
    (rests : sc.step now interval = none) :
    (∃ t, sc.pacing = .awaiting t) ∨ ∃ wake, sc.pacing = .sleeping wake ∧ now < wake := by
  unfold Scheduler.step at rests
  split at rests
  · simp at rests
  · exact .inl ⟨_, by assumption⟩
  · simp at rests
  · split at rests
    · simp at rests
    · exact .inr ⟨_, by assumption, by omega⟩

namespace Manager

variable {m : Manager} {s s' : Surroundings} {store : Backend}

/-- Worker and scheduler have nothing to do before time passes. -/
structure Resting (s : Surroundings) (store : Backend) (m : Manager) : Prop where
  worker : ∀ w, m.worker = some w → w.aborted = false ∧ w.step s m.queue store = none
  scheduler : ∀ sc, m.scheduler = some sc →
    sc.aborted = false ∧ sc.step s.now m.settings.interval = none

theorem Resting.sleeping (rests : m.Resting s store) (staged : m.Staged) (attended : m.Attended)
    {w : Worker} (present : m.worker = some w)
    (prompt : ∀ call, w.call? = some call → call.Prompt s.now) :
    w.activity = .waiting
      ∧ ∃ sc wake, m.scheduler = some sc ∧ sc.pacing = .sleeping wake ∧ s.now < wake := by
  obtain ⟨alive, still⟩ := rests.worker w present
  rcases Worker.rest_cases still with ⟨waiting, queue⟩ | ⟨call, _, called, _, pending, _⟩
  · have running : m.lifecycle = .running := by
      rcases staged.worker w present with ⟨running, _⟩ | ⟨_, aborted⟩
      · exact running
      · simp [alive] at aborted
    obtain ⟨sc, there⟩ := Option.isSome_iff_exists.mp (staged.running running).2
    rcases Scheduler.rest_cases (rests.scheduler sc there).2 with ⟨t, waits⟩ | ⟨wake, sleeps, ahead⟩
    · have pending := attended.awaited w sc t present there waits
      simp [queue, Worker.tickets, Worker.carried?, waiting] at pending
    · exact ⟨waiting, sc, wake, there, sleeps, ahead⟩
  · exact absurd pending (prompt call called).not_pending

theorem Paced.tick (h : m.Paced s) (rests : m.Resting s store) (staged : m.Staged)
    (attended : m.Attended)
    (prompt : ∀ w call, m.worker = some w → w.call? = some call → call.Prompt s.now)
    (now : s'.now = s.now + 1) (clock : s'.clock = s.clock + 1) (settings : s'.settings = s.settings) :
    m.Paced s' := by
  have paused : pause s' = pause s := by rw [pause, settings, ← pause]
  have asleep {w : Worker} (there : m.worker = some w) :=
    rests.sleeping staged attended there (prompt w · there)
  refine ⟨fun w c there cycling => ?_, fun w point there confirmed => ?_,
    fun w sc there there' waits => ?_, fun w sc wake there there' sleeps => ?_⟩
  · cases (asleep there).1.symm.trans cycling
  · obtain ⟨_, sc, wake, there', sleeps, ahead⟩ := asleep there
    have lasts := (h.sleeping w sc wake there there' sleeps).2 point confirmed
    rw [paused, settings, clock]
    omega
  · obtain ⟨_, sc₀, wake, there₀, sleeps, _⟩ := asleep there
    cases there₀.symm.trans there'
    cases sleeps.symm.trans waits
  · obtain ⟨soon, lasts⟩ := h.sleeping w sc wake there there' sleeps
    rw [paused, settings, clock, now]
    refine ⟨by omega, fun point confirmed => ?_⟩
    have := lasts point confirmed
    push_cast
    omega

end Manager

namespace World

variable {w : World} {i : Nat} {p : Participant}

theorem rests_of_quiet (quiet : w.isQuiet = true) (present : w.participants[i]? = some p)
    (placed : p.store < w.stores.length) {kind : TaskKind} (member : kind ∈ p.manager.tasks) :
    p.manager.isAborted kind = false
      ∧ p.manager.stepTask (w.surroundings p) (w.storeOf p) kind = none := by
  have still := List.all_eq_true.mp (Bool.and_eq_true_iff.mp quiet).2 _ ((mem_tasks_iff present).mpr member)
  simp only [canMove, Bool.not_or, Bool.and_eq_true, Bool.not_eq_true', Option.isSome_eq_false_iff,
    Option.isNone_iff_eq_none] at still
  refine ⟨by simpa [isAborted, present] using still.1, ?_⟩
  have found : w.stores[p.store]? = some (w.storeOf p) := by simp [storeOf, placed]
  cases step : p.manager.stepTask (w.surroundings p) (w.storeOf p) kind with
  | none => rfl
  | some r => simp [stepTask?, present, found, step] at still

theorem resting_of_quiet (quiet : w.isQuiet = true) (present : w.participants[i]? = some p)
    (placed : p.store < w.stores.length) : p.manager.Resting (w.surroundings p) (w.storeOf p) where
  worker k there := by
    have member : TaskKind.worker ∈ p.manager.tasks := by simp [Manager.tasks, there]
    obtain ⟨alive, still⟩ := rests_of_quiet quiet present placed member
    refine ⟨by simpa [Manager.isAborted, there] using alive, ?_⟩
    simpa [Manager.stepTask, Manager.stepWorker, there] using still
  scheduler sc there := by
    have member : TaskKind.scheduler ∈ p.manager.tasks := by simp [Manager.tasks, there]
    obtain ⟨alive, still⟩ := rests_of_quiet quiet present placed member
    refine ⟨by simpa [Manager.isAborted, there] using alive, ?_⟩
    simpa [Manager.stepTask, Manager.stepScheduler, there] using still

end World

end Leasehold
