import Leasehold.Proofs.Handshake

/-! # The margins between two cycles

What has been confirmed at one moment has to last until the next cycle, which begins a pause later. The
pause is half of a lease, rounded up to what a timer can keep, and a lease is given up a quarter before its
end, both in whole milliseconds: `Settings.InRange.pause_margin` is all that is to be said about the numbers.
`World.Pausing` carries it from the end of a cycle to the beginning of the next. Two things may keep the
worker from that beginning, the scheduler's sleep and a release that waits for the store, and each of them
ends in time.
-/

namespace Leasehold

/-! ## Numbers -/

theorem Reading.one_le_clamp {x : Int} : 1 ≤ clamp x ↔ 1 ≤ x := by
  unfold clamp min max
  split
  · omega
  · split <;> omega

namespace Settings

variable {settings : Settings}

theorem validate_iff_grace (settings : Settings) :
    settings.validate = .ok () ↔ 1 ≤ settings.graceMillis := by
  rw [validate_iff, graceMillis, cappedMillis, Reading.one_le_clamp]
  simp only [grace, Duration.part, Duration.wholeMillis, shortestLease, Duration.ofMillis,
    Duration.nanosPerMilli]
  omega

theorem InRange.graceMillis (ranged : settings.InRange) :
    settings.graceMillis = settings.leaseMillis / 4 := by
  have quarter : settings.grace.wholeMillis = settings.leaseDuration.wholeMillis / 4 := by
    simp only [grace, Duration.part, Duration.wholeMillis, Nat.div_div_eq_div_mul, Nat.mul_comm]
  have inside : Reading.InRange (settings.grace.wholeMillis : Int) := by
    unfold InRange at ranged
    refine ⟨le_trans (by decide) (Int.natCast_nonneg _), ?_⟩
    omega
  rw [ranged.leaseMillis, Settings.graceMillis, cappedMillis, Reading.clamp_eq_self inside, quarter]
  exact Int.natCast_ediv _ 4

theorem InRange.pause_margin (ranged : settings.InRange) (accepted : settings.validate = .ok ()) :
    (settings.interval.ceilMillis : Int) + settings.graceMillis ≤ settings.leaseMillis := by
  have long := (validate_iff settings).mp accepted
  rw [ranged.graceMillis, ranged.leaseMillis]
  simp only [shortestLease, Duration.ofMillis, interval, Duration.part, Duration.ceilMillis,
    Duration.wholeMillis, Duration.nanosPerMilli] at long ⊢
  omega

/-- The pause, rounded up, and the grace window fill a lease of four and a half milliseconds. -/
example : (⟨⟨4500000⟩, true⟩ : Settings).interval.ceilMillis = 3
    ∧ (⟨⟨4500000⟩, true⟩ : Settings).graceMillis = 1
    ∧ (⟨⟨4500000⟩, true⟩ : Settings).leaseMillis = 4 := by decide

theorem InRange.pause_margin_of_whole (ranged : settings.InRange) (accepted : settings.validate = .ok ())
    {millis : Nat} (whole : settings.leaseDuration = .ofMillis millis) :
    (settings.interval.ceilMillis : Int) + 2 * settings.graceMillis ≤ settings.leaseMillis := by
  have long := (validate_iff settings).mp accepted
  rw [ranged.graceMillis, ranged.leaseMillis]
  simp only [interval, whole, shortestLease, Duration.ofMillis, Duration.part, Duration.ceilMillis,
    Duration.wholeMillis, Duration.nanosPerMilli] at long ⊢
  omega

end Settings

theorem Backend.mem_rows_deleteExpired (b : Backend) (time : Int) {now : Int} {record : Record}
    (member : record ∈ b.rows) (lasts : now ≤ record.expiration) :
    record ∈ (b.perform time (.deleteExpired now)).2.rows := by
  cases b with
  | memory m =>
    obtain ⟨⟨name, held⟩, inside, rfl⟩ := List.mem_map.mp member
    apply List.mem_map_of_mem
    exact List.mem_filter.mpr ⟨inside, decide_eq_true lasts⟩
  | sqlite d =>
    obtain ⟨table⟩ := d
    cases table with
    | none => cases member
    | some t =>
      apply List.mem_filter.mpr
      exact ⟨member, by simpa using lasts⟩

/-! ## A worker between two cycles -/

/-- No release has been taken up. -/
def Spared (notes : List Note) : Prop := ∀ name id, .applied (.release name id) ∉ notes

theorem spared_append {notes notes' : List Note} (spared : Spared (notes ++ notes')) :
    Spared notes ∧ Spared notes' :=
  ⟨fun name id told => spared name id (List.mem_append_left notes' told),
    fun name id told => spared name id (List.mem_append_right notes told)⟩

namespace Slots

variable {slots : Slots} {name : String}

theorem holding_erase (holding : (slots.erase name).holding = true) : slots.holding = true := by
  obtain ⟨entry, member, acquired⟩ := List.any_eq_true.mp holding
  exact List.any_eq_true.mpr ⟨entry, List.mem_of_mem_filter member, acquired⟩

theorem holding_insert {id : Nat} (holding : (slots.insert name ⟨id, false⟩).holding = true) :
    slots.holding = true := by
  have kept : (slots.erase name).holding = true := by
    simpa [insert, Slots.holding] using holding
  exact holding_erase kept

end Slots

namespace Worker

variable {w : Worker} {s s' : Surroundings} {queue : List Command} {store : Backend} {r : WorkerStep}
  {c : Cycle} {reply : Reply} {point : Int}

/-- Only a cycle ends, and only at its end tickets are acknowledged. -/
theorem Move.service_cases (move : w.Move s queue store r) (idle : ∀ c, w.activity ≠ .cycling c)
    {n : Note} (told : n ∈ r.notes) : (∃ c, n = .applied c) ∨ n = .cycleBegan ∨ n.isService = false := by
  cases move with
  | @take c _ _ b listening =>
    rcases List.mem_cons.mp told with applied | remark
    · exact .inl ⟨c, applied⟩
    · exact .inr (.inr ((remarks_apply c b).beside n remark))
  | beginCycle draining =>
    right
    simp only [Worker.beginCycle, ask, List.mem_cons, List.not_mem_nil, or_false] at told
    apply told.imp_right
    rintro rfl
    rfl
  | beginRelease parting =>
    right; right
    simp only [Worker.beginRelease, ask, List.mem_singleton] at told
    rw [told]
    rfl
  | @endRelease _ _ r releasing due =>
    right; right
    exact beside_append (beside_finish _ _ _ _) (remarks_endRelease r _).beside n told
  | @abandonRelease _ _ r releasing pending late =>
    right; right
    have first : ∀ call text fields, Beside [.cancelled .worker call, .log .warn text fields] := by
      simp [Beside, Note.isService]
    exact beside_append (first _ _ _) remarks_giveUp.beside n told
  | resume cycling | failCycle cycling | overrun cycling => exact absurd cycling (idle _)

theorem Move.holding (move : w.Move s queue store r) (idle : ∀ c, w.activity ≠ .cycling c)
    (holding : r.worker.slots.holding = true) : w.slots.holding = true := by
  cases move with
  | @take c _ _ b listening =>
    cases c with
    | register name id => exact Slots.holding_insert holding
    | release name id =>
      simp only [apply, release] at holding
      split at holding
      · exact holding
      · split at holding
        · exact Slots.holding_erase holding
        · exact holding
    | maintain ticket => exact holding
  | beginCycle | beginRelease | endRelease => exact holding
  | @abandonRelease _ _ r releasing pending late =>
    rw [abandonRelease_eq] at holding
    cases due : w.mustGiveUp s with
    | true =>
      rw [giveUp_of_due due] at holding
      simp [Slots.holding, Slots.assign] at holding
    | false => rwa [giveUp_of_safe due] at holding
  | resume cycling | failCycle cycling | overrun cycling => exact absurd cycling (idle _)

theorem Move.stays_idle (move : w.Move s queue store r) (idle : w.activity.isBusy = false)
    (silent : .cycleBegan ∉ r.notes) (spared : Spared r.notes) :
    r.worker.activity.isBusy = false := by
  have busy {activity : Activity} (is : w.activity = activity) : activity.isBusy = false := is ▸ idle
  cases move with
  | @take c _ _ b listening =>
    cases c with
    | register name id => exact not_busy_afterCommand b
    | release name id => exact absurd List.mem_cons_self (spared name id)
    | maintain ticket => rfl
  | beginCycle draining => exact absurd List.mem_cons_self silent
  | beginRelease parting => cases busy parting
  | endRelease releasing | abandonRelease releasing => cases busy releasing
  | resume cycling | failCycle cycling | overrun cycling => cases busy cycling

/-! ### What the end of a cycle leaves -/

/-- A cycle that deletes rows has confirmed what it has written. -/
def Learned (w : Worker) : Prop := ∀ c name rest, w.activity = .cycling c →
  c.stage = .purging name rest → w.confirmedUntil = some c.expiration

/-- An answer ends a cycle, or makes it delete rows, only when what it has written is confirmed. -/
theorem Learned.resume_cases (h : w.Learned) (cycling : w.activity = .cycling c) :
    (w.resume s c reply).1.confirmedUntil = some c.expiration
      ∨ (∀ c' name rest, (w.resume s c reply).1.activity = .cycling c' → c'.stage ≠ .purging name rest)
        ∧ ∀ succeeded, .cycleEnded succeeded ∉ (w.resume s c reply).2 := by
  cases stage : c.stage with
  | collecting =>
    right
    simp only [resume, stage]
    refine ⟨?_, fun succeeded => ?_⟩
    · rintro c' name rest ⟨⟩ ⟨⟩
    · split <;> simp [askNext, ask]
  | refreshing =>
    right
    simp only [resume, stage]
    split
    · refine ⟨?_, fun succeeded => by simp [askNext, ask]⟩
      rintro c' name rest ⟨⟩ ⟨⟩
    · refine ⟨?_, fun succeeded => by simp [askNext, ask]⟩
      rintro c' name rest ⟨⟩ ⟨⟩
  | claiming =>
    right
    simp only [resume, stage]
    refine ⟨?_, fun succeeded => by simp [askNext, ask]⟩
    rintro c' name rest ⟨⟩ ⟨⟩
  | selecting =>
    left
    rcases w.resume_eq s c reply with ⟨other, _⟩ | ⟨_, activity, eq⟩
    · exact absurd stage other
    · rw [eq]
      rfl
  | purging name rest =>
    left
    rcases w.resume_eq s c reply with ⟨_, activity, eq⟩ | ⟨selecting, _⟩
    · rw [eq]
      exact h c name rest cycling stage
    · cases stage.symm.trans selecting

theorem Learned.move (h : w.Learned) (move : w.Move s queue store r) : r.worker.Learned := by
  intro c' name rest cycling' purging
  rcases move.start_cases with ⟨_, tickets, eq⟩ | ⟨_, goesOn⟩
  · rw [eq] at cycling'
    cases cycling'
    cases purging
  · obtain ⟨c, cycling, expiration, _⟩ := goesOn c' cycling'
    rcases move.cycle_step cycling with ⟨reply, _, rfl⟩ | ⟨_, e, _, _, _, failed, _⟩
    · rw [expiration]
      refine (h.resume_cases cycling).resolve_right fun other => ?_
      exact other.1 c' name rest cycling' purging
    · rw [failed] at cycling'
      cases cycling'

theorem Learned.ended (h : w.Learned) (move : w.Move s queue store r)
    (ended : .cycleEnded true ∈ r.notes) : ∃ c, w.activity = .cycling c
      ∧ r.worker.activity = .waiting ∧ r.worker.confirmedUntil = some c.expiration := by
  by_cases idle : ∀ c, w.activity ≠ .cycling c
  · rcases move.service_cases idle ended with ⟨c, eq⟩ | eq | other
    · cases eq
    · cases eq
    · cases other
  · obtain ⟨c, cycling⟩ : ∃ c, w.activity = .cycling c := by
      simpa using idle
    refine ⟨c, cycling, ?_⟩
    rcases move.cycle_step cycling with ⟨reply, _, rfl⟩ | ⟨_, e, called, _, silent, _, _, notes⟩
    · have told : .cycleEnded true ∈ (w.resume s c reply).2 :=
        (List.mem_append.mp ended).resolve_left (goesOn_finish true)
      refine ⟨(ended_resume told).2, ?_⟩
      exact (h.resume_cases cycling).resolve_right fun other => other.2 true told
    · rw [notes] at ended
      rcases List.mem_append.mp ended with early | last
      · exact absurd early (silent true)
      · cases ended_failCycle last

/-! ### Until the next one begins -/

/-- The worker is not in a cycle, what it has confirmed lasts until this point, and while it holds a lease,
    whatever it does is over in time. -/
structure Pausing (s : Surroundings) (point : Int) (w : Worker) : Prop where
  idle : ∀ c, w.activity ≠ .cycling c
  confirmed : w.confirmedUntil = some point
  watched : w.slots.holding = true → w.Watched s point

theorem Pausing.abort (h : w.Pausing s point) (aborted : Bool) :
    ({ w with aborted } : Worker).Pausing s point :=
  ⟨h.idle, h.confirmed, fun holding => (h.watched holding).abort aborted⟩

theorem Pausing.frame (h : w.Pausing s point) (now : s'.now = s.now) (clock : s'.clock = s.clock)
    (settings : s'.settings = s.settings) : w.Pausing s' point :=
  ⟨h.idle, h.confirmed, fun holding => (h.watched holding).frame now clock settings⟩

theorem Pausing.move (h : w.Pausing s point) (inside : Reading.min ≤ s.clock)
    (move : w.Move s queue store r) (silent : .cycleBegan ∉ r.notes) : r.worker.Pausing s point := by
  have confirmed : r.worker.confirmedUntil = some point := by
    rcases move.confirmed_cases with same | ⟨c, cycling, _⟩
    · exact same.trans h.confirmed
    · exact absurd cycling (h.idle c)
  refine ⟨fun c' cycling' => ?_, confirmed, fun holding => ?_⟩
  · rcases move.start_cases with ⟨begins, _⟩ | ⟨_, goesOn⟩
    · exact silent (began_of_begins begins)
    · obtain ⟨c, cycling, _⟩ := goesOn c' cycling'
      exact h.idle c cycling
  · have before := move.holding h.idle holding
    have early := (h.watched before).early
    have pledged {w : Worker} (holding : w.slots.holding = true) (known : w.confirmedUntil = some point) :
        w.pledge? = some point := by rw [pledge?, if_pos holding, known]
    have known : ∃ later, point ≤ later ∧ r.worker.confirmedUntil = some later :=
      ⟨point, le_rfl, confirmed⟩
    cases move with
    | take listening =>
      exact (Move.take listening).watched_of_idle inside (not_busy_of_listening listening)
        (pledged holding confirmed) early
    | beginCycle draining => exact absurd List.mem_cons_self silent
    | beginRelease parting =>
      exact watched_of_allowance (w := w) inside early (pledged before h.confirmed) rfl
        (fun _ _ is => by cases is) rfl
    | @endRelease _ _ r releasing due => exact watched_idle early known (not_busy_afterCommand r.batch)
    | @abandonRelease _ _ r releasing pending late =>
      exact watched_idle early known (not_busy_afterCommand r.batch)
    | resume cycling | failCycle cycling | overrun cycling => exact absurd cycling (h.idle _)

theorem Pausing.tick (h : w.Pausing s point) (rests : w.step s queue store = none)
    (now : s'.now = s.now + 1) (clock : s'.clock ≤ s.clock + 1) (settings : s'.settings = s.settings)
    (early : w.activity = .waiting → s'.clock ≤ point - s'.settings.graceMillis) :
    w.Pausing s' point := by
  refine ⟨h.idle, h.confirmed, fun holding => ?_⟩
  by_cases busy : w.activity.isBusy = true
  · exact (h.watched holding).tick busy rests now clock settings
  · apply watched_idle _ ⟨point, le_rfl, h.confirmed⟩ (by simpa using busy)
    rcases rest_cases rests with ⟨waiting, _⟩ | ⟨call, _, called, _⟩
    · exact early waiting
    · cases activity : w.activity with
      | waiting | draining | parting => simp [call?, activity] at called
      | releasing | cycling => simp [Activity.isBusy, activity] at busy

end Worker

/-! ## Worker and scheduler -/

namespace Scheduler

variable {sc sc' next : Scheduler} {limit now pause : Nat} {past : Diary} {interval : Duration}
  {ticket : Option Nat}

/-- The scheduler does not sleep beyond this limit. -/
def WakesBy (limit now pause : Nat) (sc : Scheduler) : Prop :=
  match sc.pacing with
  | .requesting | .awaiting _ => True
  | .acknowledged => now + pause ≤ limit
  | .sleeping wake => wake ≤ limit

theorem WakesBy.congr (h : sc.WakesBy limit now pause) (pacing : sc'.pacing = sc.pacing) :
    sc'.WakesBy limit now pause := by
  unfold WakesBy at h ⊢
  rw [pacing]
  exact h

theorem WakesBy.later (h : sc.WakesBy limit now pause) (other : sc.pacing ≠ .acknowledged) {now' : Nat} :
    sc.WakesBy limit now' pause := by
  unfold WakesBy at h ⊢
  split at h
  · trivial
  · trivial
  · exact absurd (by assumption) other
  · exact h

theorem WakesBy.step (h : sc.WakesBy limit now interval.ceilMillis)
    (step : sc.step now interval = some (next, ticket)) :
    next.WakesBy limit now interval.ceilMillis := by
  cases pacing : sc.pacing with
  | requesting =>
    simp only [Scheduler.step, pacing] at step
    cases step
    trivial
  | awaiting t => simp [Scheduler.step, pacing] at step
  | acknowledged =>
    simp only [WakesBy, pacing] at h
    simp only [Scheduler.step, pacing] at step
    cases step
    exact h
  | sleeping wake =>
    simp only [Scheduler.step, pacing] at step
    split at step
    · cases step
      trivial
    · cases step

theorem Chained.wakesBy (chained : sc.Chained now pause past) : sc.WakesBy (now + pause) now pause := by
  have rests := chained.rests
  cases pacing : sc.pacing with
  | requesting | awaiting => simp only [WakesBy, pacing]
  | acknowledged =>
    simp only [WakesBy, pacing]
    exact le_rfl
  | sleeping wake =>
    simp only [Rests, pacing] at rests
    simp only [WakesBy, pacing]
    exact rests.2

end Scheduler

namespace Manager

variable {m m' : Manager} {s s' : Surroundings} {store b : Backend} {notes : List Note} {since : Nat}
  {point : Int} {calm spared spared' : Prop}

theorem Move.running (move : m.Move s store m' b notes) (begun : ¬ m.Early)
    (running' : m'.lifecycle = .running) : m.lifecycle = .running := by
  cases lifecycle : m.lifecycle with
  | running => rfl
  | idle => exact absurd (.inl lifecycle) begun
  | starting => exact absurd (.inr lifecycle) begun
  | stopped => cases (move.stopped lifecycle).symm.trans running'

theorem learned_of_reachable {w : World} (reachable : w.Reachable) {p : Participant}
    (member : p ∈ w.participants) : ∀ k, p.manager.worker = some k → k.Learned := by
  apply reachable.manager (P := fun m => ∀ k, m.worker = some k → k.Learned) _ _ member
  · intro owner settings k there
    cases there
  · intro m s store m' b notes learned move k there
    rcases move.work_cases with ⟨w, r, present, step, rfl, _⟩ | aside
    · rw [publishAll_eq] at there
      cases there
      exact (learned w present).move step
    · obtain ⟨w, aborted, present | rfl, rfl⟩ := aside.worker k there
      · exact learned w present
      · intro c name rest cycling
        cases cycling

/-- The manager has not begun a cycle since this time. That is no longer ago than a pause, if the store is
    calm or the worker has been spared releases. -/
structure Pausing (s : Surroundings) (since : Nat) (point : Int) (calm spared : Prop) (m : Manager) :
    Prop where
  worker : ∀ k, m.worker = some k → k.Pausing s point
  scheduler : ∀ sc, m.scheduler = some sc → sc.WakesBy (since + pause s) s.now (pause s)
  prompt : calm → ∀ k call, m.worker = some k → k.call? = some call → call.Prompt s.now
  idle : spared → ∀ k, m.worker = some k → k.activity.isBusy = false
  soon : calm ∨ spared → s.now ≤ since + pause s

theorem Pausing.frame (h : m.Pausing s since point calm spared) (now : s'.now = s.now)
    (clock : s'.clock = s.clock) (settings : s'.settings = s.settings) :
    m.Pausing s' since point calm spared := by
  have paused : pause s' = pause s := by rw [pause, settings, ← pause]
  refine ⟨fun k there => (h.worker k there).frame now clock settings, ?_, ?_, h.idle, ?_⟩
  · rw [paused, now]
    exact h.scheduler
  · rw [now]
    exact h.prompt
  · rw [paused, now]
    exact h.soon

theorem Pausing.move (h : m.Pausing s since point calm spared) (move : m.Move s store m' b notes)
    (staged : m.Staged) (modest : m.Modest) (running : m.lifecycle = .running)
    (running' : m'.lifecycle = .running) (settings : m.settings = s.settings)
    (inside : Reading.min ≤ s.clock) (clear : calm → s.link = .clear) (silent : .cycleBegan ∉ notes)
    (fewer : spared' → spared ∧ Spared notes) :
    m'.Pausing s since point calm spared' := by
  obtain ⟨k, present⟩ := Option.isSome_iff_exists.mp (staged.running running).1
  have soon : calm ∨ spared' → s.now ≤ since + pause s := fun either =>
    h.soon (either.imp_right fun less => (fewer less).1)
  cases move.live staged modest with
  | launch new => cases new.symm.trans present
  | @work k₀ r present' step worker scheduler =>
    cases present.symm.trans present'
    refine ⟨fun k' there => ?_, fun sc there => ?_, fun quiet k' call there called => ?_,
      fun less k' there => ?_, soon⟩
    · cases worker.symm.trans there
      exact (h.worker k present).move inside step silent
    · rw [scheduler] at there
      obtain ⟨sc₀, there₀, rfl⟩ := Option.map_eq_some_iff.mp there
      -- Nothing is acknowledged but at the end of a cycle.
      have unheard : r.notes.foldl Scheduler.hear sc₀ = sc₀ := by
        apply sc₀.pacing_hear_of_other
        intro t _ told
        rcases step.service_cases (h.worker k present).idle told with ⟨c, eq⟩ | eq | other
        · cases eq
        · cases eq
        · cases other
      rw [unheard]
      exact h.scheduler sc₀ there₀
    · cases worker.symm.trans there
      obtain ⟨request, rfl⟩ := step.placed called
      rw [clear quiet]
      exact Call.prompt_place s.now request
    · cases worker.symm.trans there
      obtain ⟨less', unreleased⟩ := fewer less
      exact step.stays_idle (h.idle less' k present) silent unreleased
  | @pace sc next ticket _ present' step worker scheduler =>
    refine ⟨fun k' there => h.worker k' (worker ▸ there), fun sc' there => ?_,
      fun quiet k' call there => h.prompt quiet k' call (worker ▸ there),
      fun less k' there => h.idle (fewer less).1 k' (worker ▸ there), soon⟩
    cases scheduler.symm.trans there
    have wakes := h.scheduler sc present'
    rw [pause, ← settings] at wakes ⊢
    exact wakes.step step
  | @aside _ _ k₀ aborted present' worker scheduler =>
    cases present.symm.trans present'
    refine ⟨fun k' there => ?_, fun sc there => ?_, fun quiet k' call there called => ?_,
      fun less k' there => ?_, soon⟩
    · cases worker.symm.trans there
      exact (h.worker k present).abort aborted
    · obtain ⟨sc₀, there₀, pacing⟩ := scheduler sc there
      exact (h.scheduler sc₀ there₀).congr pacing
    · cases worker.symm.trans there
      exact h.prompt quiet k call present called
    · cases worker.symm.trans there
      exact h.idle (fewer less).1 k present
  | gone none _ =>
    have there := ((staged.move move).running running').1
    rw [none] at there
    cases there

theorem Pausing.soon_of_rests (h : m.Pausing s since point calm spared) {k : Worker} {sc : Scheduler}
    (worker : m.worker = some k) (scheduler : m.scheduler = some sc)
    (rests : k.step s m.queue store = none)
    (asleep : (∃ wake, sc.pacing = .sleeping wake ∧ s.now < wake)
      ∨ ∃ t call deadline, sc.pacing = .awaiting t ∧ k.call? = some call ∧ k.deadline? = some deadline
        ∧ s.now < deadline) (idle : (calm ∨ spared) ∨ k.activity = .waiting) :
    s.now + 1 ≤ since + pause s := by
  rcases asleep with ⟨wake, sleeps, ahead⟩ | ⟨t, call, deadline, _, called, _⟩
  · have wakes := h.scheduler sc scheduler
    simp only [Scheduler.WakesBy, sleeps] at wakes
    omega
  · -- A worker that waits for its store is busy, and its call has not been answered at once.
    exfalso
    rcases Worker.rest_cases rests with ⟨waiting, _⟩ | ⟨call', _, called', _, pending, _⟩
    · simp [Worker.call?, waiting] at called
    · rcases idle with (quiet | less) | waiting
      · exact (h.prompt quiet k call' worker called').not_pending pending
      · have idle := h.idle less k worker
        cases activity : k.activity with
        | waiting | draining | parting => simp [Worker.call?, activity] at called
        | releasing | cycling => simp [Activity.isBusy, activity] at idle
      · simp [Worker.call?, waiting] at called

end Manager

namespace World

variable {start v w w' : World} {i : Nat} {p p' : Participant} {a : Action} {settings : Settings}
  {reading : Int} {calm : Prop}

/-- A cycle has just ended well, and the clock still shows what it showed when the cycle began. -/
structure AtOnce (start : World) (actions : List Action) (v : World) (i : Nat) (reading : Int) :
    Prop where
  begins : start.Begins
  ended : ∃ u a, start.run? actions = some u ∧ u.act? a = some v ∧ .cycleEnded true ∈ u.newsOf v i
  began : start.cycleStart i actions = some reading
  shows : v.clockOf i = some reading

/-- A participant since the end of such a cycle. -/
structure Pausing (v : World) (i : Nat) (settings : Settings) (reading : Int) (calm : Prop) (w : World) :
    Prop where
  reachable : w.Reachable
  equipped : ∀ p, w.participants[i]? = some p → p.manager.settings = settings ∧ ¬ p.manager.Early
  clear : calm → ∀ p, w.participants[i]? = some p → (w.surroundings p).link = .clear
  elapsed : ∀ p, w.participants[i]? = some p → (w.surroundings p).clock + v.now ≤ reading + w.now
  past : w.notesOf i = v.notesOf i ++ v.newsOf w i
  /-- As long as it runs and has not begun another. -/
  manager : .cycleBegan ∉ v.newsOf w i → ∀ p, w.participants[i]? = some p →
    p.manager.lifecycle = .running →
      p.manager.Pausing (w.surroundings p) v.now (reading + settings.leaseMillis) calm
        (Spared (v.newsOf w i))

theorem Pausing.elapse (h : v.Pausing i settings reading calm w)
    (margin : (settings.interval.ceilMillis : Int) + settings.graceMillis ≤ settings.leaseMillis)
    (quiet : w.isQuiet = true) (reachable : (w.elapse 1).Reachable) :
    v.Pausing i settings reading calm (w.elapse 1) := by
  have elapsed (p : Participant) (present : w.participants[i]? = some p) :
      ((w.elapse 1).surroundings p).clock + v.now ≤ reading + (w.elapse 1).now := by
    have before := h.elapsed p present
    have shows : ((w.elapse 1).surroundings p).clock ≤ (w.surroundings p).clock + 1 :=
      (reading_elapse p.clock w).2
    simp only [World.elapse] at shows ⊢
    push_cast
    omega
  refine ⟨reachable, h.equipped, h.clear, elapsed, h.past, fun silent p present running => ?_⟩
  have before := h.manager silent p present running
  obtain ⟨there, there'⟩ := (h.reachable.staged (List.mem_of_getElem? present)).running running
  obtain ⟨k, worker⟩ := Option.isSome_iff_exists.mp there
  obtain ⟨sc, scheduler⟩ := Option.isSome_iff_exists.mp there'
  have rests := (resting_of_quiet quiet present
    (h.reachable.placed_of_worker present worker)).worker k worker
  have asleep := (h.reachable.handshake present worker scheduler).quiet quiet
  have soon := before.soon_of_rests worker scheduler rests.2 asleep
  refine ⟨fun k' worker' => ?_, fun sc' scheduler' => ?_, fun calm k' call worker' called => ?_,
    before.idle, fun either => soon (.inl either)⟩
  · cases worker.symm.trans worker'
    refine Worker.Pausing.tick (s := w.surroundings p) (before.worker k worker) rests.2 rfl
      (reading_elapse p.clock w).2 rfl fun waiting => ?_
    have time := elapsed p present
    have ahead := soon (.inr waiting)
    obtain ⟨rfl, _⟩ := h.equipped p present
    simp only [surroundings, Manager.pause, World.elapse] at time ahead ⊢
    push_cast at time
    omega
  · cases scheduler.symm.trans scheduler'
    apply (before.scheduler sc scheduler).later
    rcases asleep with ⟨wake, sleeps, _⟩ | ⟨t, call, deadline, awaits, _⟩
    · simp [sleeps]
    · simp [awaits]
  · exact (before.prompt calm k' call worker' called).later (Nat.le_succ w.now)

theorem Pausing.stays_equipped (h : v.Pausing i settings reading calm w) (change : w.Change a w')
    (present' : w'.participants[i]? = some p') :
    p'.manager.settings = settings ∧ ¬ p'.manager.Early := by
  obtain ⟨p, present, ⟨same, _⟩ | ⟨b, notes, move, _⟩⟩ := change.past_cases present'
  · rw [same]
    exact h.equipped p present
  · obtain ⟨kept, begun⟩ := h.equipped p present
    have staged := h.reachable.staged (List.mem_of_getElem? present)
    exact ⟨move.frame.2.trans kept, (move.shift staged).settled begun⟩

theorem Pausing.stays_clear (h : v.Pausing i settings reading calm w) (change : w.Change a w')
    (unlinked : ∀ link, a ≠ .setLink i link) (quiet : calm) (present' : w'.participants[i]? = some p') :
    (w'.surroundings p').link = .clear := by
  obtain ⟨p, present, link⟩ := change.keeps_link unlinked present'
  have clear := h.clear quiet p present
  have kept := (h.equipped p present).1
  have kept' := (h.stays_equipped change present').1
  simp only [surroundings, kept, kept', link] at clear ⊢
  exact clear

theorem Pausing.moved (h : v.Pausing i settings reading calm w) (present : w.participants[i]? = some p)
    {m : Manager} {b : Backend} {notes : List Note}
    (move : p.manager.Move (w.surroundings p) (w.storeOf p) m b notes)
    (silent : .cycleBegan ∉ v.newsOf w i ++ notes) (running' : m.lifecycle = .running) :
    m.Pausing (w.surroundings p) v.now (reading + settings.leaseMillis) calm
      (Spared (v.newsOf w i ++ notes)) := by
  have member := List.mem_of_getElem? present
  have modest : p.manager.Modest := h.reachable.manager Manager.modest_fresh
    (fun _ _ _ _ _ _ modest move => modest.move move) member
  have running := move.running (h.equipped p present).2 running'
  have before := h.manager (fun told => silent (List.mem_append_left notes told)) p present running
  exact before.move move (h.reachable.staged member) modest running running' rfl
    (p.clock.min_le_reading w.trueTime) (fun quiet => h.clear quiet p present)
    (fun told => silent (List.mem_append_right _ told)) spared_append

theorem Pausing.act (h : v.Pausing i settings reading calm w)
    (margin : (settings.interval.ceilMillis : Int) + settings.graceMillis ≤ settings.leaseMillis)
    (unset : ∀ clock, a ≠ .setClock i clock) (unlinked : calm → ∀ link, a ≠ .setLink i link)
    (act : w.act? a = some w') : v.Pausing i settings reading calm w' := by
  have change := change_of_act? act
  have reachable := h.reachable.act act
  by_cases passed : w.isQuiet = true ∧ w' = w.elapse 1
  · obtain ⟨quiet, rfl⟩ := passed
    exact h.elapse margin quiet reachable
  have moves {p' : Participant} (present' : w'.participants[i]? = some p') :=
    (change.passes unset present').resolve_right fun ⟨quiet, eq, _⟩ => passed ⟨quiet, eq⟩
  have more := change.notesOf_eq i
  have news := newsOf_append h.past more
  refine ⟨reachable, fun p' => h.stays_equipped change,
    fun quiet p' => h.stays_clear change (unlinked quiet) quiet, fun p' present' => ?_, ?_,
    fun silent p' present' running' => ?_⟩
  · obtain ⟨p, present, _, now, clock, _⟩ := moves present'
    have same : w'.now = w.now := now
    rw [clock, same]
    exact h.elapsed p present
  · rw [news, more, h.past, List.append_assoc]
  · rw [news] at silent ⊢
    obtain ⟨p, present, _, now, clock, ⟨same, still⟩ | ⟨b, move⟩⟩ := moves present'
    · rw [still, List.append_nil] at silent ⊢
      rw [same] at running' ⊢
      exact (h.manager silent p present running').frame now clock (congrArg Manager.settings same)
    · exact (h.moved present move silent running').frame now clock move.frame.2

theorem Pausing.of_run (h : v.Pausing i settings reading calm w)
    (margin : (settings.interval.ceilMillis : Int) + settings.graceMillis ≤ settings.leaseMillis)
    {actions : List Action} (unset : ∀ clock, .setClock i clock ∉ actions)
    (unlinked : calm → ∀ link, .setLink i link ∉ actions) (run : w.run? actions = some w') :
    v.Pausing i settings reading calm w' := by
  induction actions generalizing w with
  | nil =>
    cases run
    exact h
  | cons a actions ih =>
    obtain ⟨next, act, run⟩ := Option.bind_eq_some_iff.mp run
    have first : v.Pausing i settings reading calm next := by
      apply h.act margin _ _ act
      · rintro clock rfl
        exact unset clock List.mem_cons_self
      · rintro quiet link rfl
        exact unlinked quiet link List.mem_cons_self
    apply ih first _ _ run
    · exact fun clock member => unset clock (List.mem_cons_of_mem a member)
    · exact fun quiet link member => unlinked quiet link (List.mem_cons_of_mem a member)

theorem AtOnce.worker {actions : List Action} (atOnce : start.AtOnce actions v i reading) :
    ∃ p k, v.participants[i]? = some p ∧ p.manager.worker = some k ∧ k.activity = .waiting
      ∧ k.confirmedUntil = some (Reading.add reading p.manager.settings.leaseMillis) := by
  obtain ⟨u, a, run, act, ended⟩ := atOnce.ended
  have shows := atOnce.shows
  obtain ⟨p', present', _⟩ := Option.map_eq_some_iff.mp shows
  obtain ⟨p, m, b, moved, rfl⟩ := (change_of_act? act).moved_of_news present' ended
  rcases moved.move.work_cases with ⟨k, r, present, step, rfl, _, noted⟩ | aside
  · rw [noted] at ended
    have reachable : u.Reachable := ⟨start, actions, atOnce.begins, run⟩
    have learned := Manager.learned_of_reachable reachable (List.mem_of_getElem? moved.present) k present
    obtain ⟨c, cycling, waiting, confirmed⟩ := learned.ended step ended
    obtain ⟨began, known, written, _⟩ :=
      (atOnce.begins.dated run p moved.present k present).cycling c cycling
    obtain rfl := Option.some.inj (atOnce.began.symm.trans known)
    refine ⟨_, r.worker, present', by rw [Manager.publishAll_eq], waiting, ?_⟩
    rw [confirmed, written, Manager.publishAll_eq]
  · obtain ⟨c, eq⟩ := aside.aloof _ ended rfl
    cases eq

theorem AtOnce.reachable {actions : List Action} (atOnce : start.AtOnce actions v i reading) :
    v.Reachable := by
  obtain ⟨u, a, run, act, _⟩ := atOnce.ended
  exact Reachable.act ⟨start, actions, atOnce.begins, run⟩ act

theorem AtOnce.pausing {actions : List Action} (atOnce : start.AtOnce actions v i reading)
    (present : v.participants[i]? = some p) (uses : p.manager.settings = settings)
    (margin : (settings.interval.ceilMillis : Int) + settings.graceMillis ≤ settings.leaseMillis)
    (inside : Reading.InRange (reading + settings.leaseMillis))
    (clear : calm → (v.surroundings p).link = .clear) : v.Pausing i settings reading calm v := by
  have reachable := atOnce.reachable
  have staged := reachable.staged (List.mem_of_getElem? present)
  obtain ⟨q, k, there, worker, waiting, confirmed⟩ := atOnce.worker
  obtain rfl := Option.some.inj (present.symm.trans there)
  rw [uses, Reading.add_eq inside] at confirmed
  have shows : (v.surroundings p).clock = reading := by
    have shows := atOnce.shows
    rw [clockOf, present] at shows
    exact Option.some.inj shows
  have only {q : Participant} (there : v.participants[i]? = some q) : q = p :=
    Option.some.inj (there.symm.trans present)
  have none : v.newsOf v i = [] := List.drop_length
  refine ⟨reachable, fun q there => ?_, fun quiet q there => ?_, fun q there => ?_,
    by rw [none, List.append_nil], fun _ q there running => ?_⟩
  all_goals obtain rfl := only there
  · refine ⟨uses, fun early => ?_⟩
    cases (staged.worker_none early).symm.trans worker
  · exact clear quiet
  · rw [shows]
  · refine ⟨fun k' worker' => ?_, fun sc scheduler => ?_, fun _ k' call worker' called => ?_,
      fun _ k' worker' => ?_, fun _ => Nat.le_add_right _ _⟩
    · cases worker.symm.trans worker'
      refine ⟨fun c cycling => ?_, confirmed, fun _ => ?_⟩
      · cases waiting.symm.trans cycling
      · apply Worker.watched_idle _ ⟨_, le_rfl, confirmed⟩ (by rw [waiting]; rfl)
        rw [shows]
        change _ ≤ _ - q.manager.settings.graceMillis
        rw [uses]
        omega
    · exact ((reachable.chained present).scheduler k sc worker scheduler).wakesBy
    · cases worker.symm.trans worker'
      simp [Worker.call?, waiting] at called
    · cases worker.symm.trans worker'
      rw [waiting]
      rfl

/-- A cycle has been answered at once, and some actions later the next one has not begun. -/
structure Between (start : World) (before : List Action) (v : World) (actions : List Action) (w : World)
    (i : Nat) (reading : Int) : Prop where
  atOnce : start.AtOnce before v i reading
  run : v.run? actions = some w
  unset : ∀ clock, .setClock i clock ∉ actions
  waits : .cycleBegan ∉ v.newsOf w i

/-- Whatever else the participant asks its store is answered at once as well. -/
structure Undelayed (v : World) (i : Nat) (actions : List Action) : Prop where
  clear : ∀ p, v.participants[i]? = some p → (v.surroundings p).link = .clear
  stays : ∀ link, .setLink i link ∉ actions

/-- No release keeps the worker of a participant from its next cycle: none has been taken up, or all have
    been answered at once. -/
def Unhindered (v : World) (actions : List Action) (w : World) (i : Nat) : Prop :=
  v.Undelayed i actions ∨ Spared (v.newsOf w i)

/-- For a lease of any duration: it is accepted just if it leaves a grace window. If it is, and its
    milliseconds are within the range of a clock, the pause between two cycles and the grace window fit
    into it. So after a cycle that is answered at once, the next one begins before what is held has to be
    given up, though releases may hang, and even if nothing is held, when the store answers them at once.
    For whole milliseconds there is room for two grace windows: nobody whose clock is two of them ahead
    collects before that a row that lasts as long as what the cycle has written. -/
theorem timing_margins (settings : Settings) :
    (settings.validate = .ok () ↔ 1 ≤ settings.graceMillis)
      ∧ (settings.validate = .ok () → settings.InRange →
        settings.graceMillis = settings.leaseMillis / 4
          ∧ settings.interval.ceilMillis + settings.graceMillis ≤ settings.leaseMillis
          ∧ (∀ millis, settings.leaseDuration = .ofMillis millis →
            settings.interval.ceilMillis + 2 * settings.graceMillis ≤ settings.leaseMillis)
          ∧ ∀ (start v w : World) (before actions : List Action) (i : Nat) (reading : Int) (p : Participant),
            start.Between before v actions w i reading →
            Reading.InRange (reading + settings.leaseMillis) → w.participants[i]? = some p →
            p.manager.settings = settings → p.manager.lifecycle = .running →
            ∃ k clock, p.manager.worker = some k ∧ w.clockOf i = some clock
              ∧ k.confirmedUntil = some (reading + settings.leaseMillis)
              ∧ (k.slots.holding = true → clock ≤ reading + settings.leaseMillis - settings.graceMillis)
              ∧ (v.Unhindered actions w i → w.now ≤ v.now + settings.interval.ceilMillis
                ∧ clock ≤ reading + settings.leaseMillis - settings.graceMillis
                ∧ ∀ millis, settings.leaseDuration = .ofMillis millis →
                  ∀ record ∈ (w.storeOf p).rows, reading + settings.leaseMillis ≤ record.expiration →
                  ∀ time now, now ≤ clock + 2 * settings.graceMillis →
                    record ∈ ((w.storeOf p).perform time (.deleteExpired now)).2.rows)) := by
  refine ⟨settings.validate_iff_grace, fun accepted ranged => ?_⟩
  have margin := ranged.pause_margin accepted
  have room (millis : Nat) (whole : settings.leaseDuration = .ofMillis millis) :=
    ranged.pause_margin_of_whole accepted whole
  refine ⟨ranged.graceMillis, margin, room, ?_⟩
  intro start v w before actions i reading p between inside present uses running
  obtain ⟨q, _, there, _⟩ := between.atOnce.worker
  have kept : q.manager.settings = settings :=
    (frame_of_run between.run there present).2.symm.trans uses
  have pausing : v.Pausing i settings reading (v.Undelayed i actions) w :=
    (between.atOnce.pausing there kept margin inside fun undelayed => undelayed.clear q there).of_run margin
      between.unset (fun undelayed => undelayed.stays) between.run
  have lull := pausing.manager between.waits p present running
  have elapsed := pausing.elapsed p present
  have staged := pausing.reachable.staged (List.mem_of_getElem? present)
  obtain ⟨k, worker⟩ := Option.isSome_iff_exists.mp (staged.running running).1
  have paused : Manager.pause (w.surroundings p) = settings.interval.ceilMillis := by rw [← uses]; rfl
  have shows : w.clockOf i = some (w.surroundings p).clock := by simp [clockOf, present, surroundings]
  refine ⟨k, _, worker, shows, (lull.worker k worker).confirmed, fun holding => ?_, fun unhindered => ?_⟩
  · have early := ((lull.worker k worker).watched holding).early
    change _ ≤ _ - p.manager.settings.graceMillis at early
    rwa [uses] at early
  · have soon : w.now ≤ v.now + settings.interval.ceilMillis := by
      have soon := lull.soon unhindered
      rwa [paused] at soon
    refine ⟨soon, by omega, fun millis whole record member lasts time now ahead => ?_⟩
    have two := room millis whole
    exact Backend.mem_rows_deleteExpired _ time member (by omega)

/-- A manager claims its lease in a cycle that is answered at once, but for the last answer. -/
def firstCycle : List Action :=
  .start 0 :: turn 0 (.attempt 0) 4 ++ [.create 0 "x"] ++ turn 0 .scheduler 2 ++ turn 0 .worker 7

/-- Then nothing happens for four milliseconds. -/
def lull : List Action := .proceed ⟨0, .worker⟩ :: turn 0 .scheduler 2 ++ List.replicate 4 .tick

/-- The next cycle is due at this moment, and the row is still there for somebody whose clock is ahead by
    four, twice the grace window. -/
theorem timing_margins_lull : ∃ (v w : World) (p : Participant),
    (Settings.ofMillis 8).validate = .ok () ∧ (Settings.ofMillis 8).InRange
      ∧ lone.Between firstCycle v lull w 0 0 ∧ v.Undelayed 0 lull
      ∧ Reading.InRange (0 + (Settings.ofMillis 8).leaseMillis) ∧ w.participants[0]? = some p
      ∧ p.manager.settings = .ofMillis 8 ∧ p.manager.lifecycle = .running ∧ w.clockOf 0 = some 4
      ∧ w.now = v.now + (Settings.ofMillis 8).interval.ceilMillis
      ∧ ⟨"x", "a", 8⟩ ∈ ((w.storeOf p).perform 0 (.deleteExpired (4 + 4))).2.rows := by
  have accepted : (Settings.ofMillis 8).validate = .ok () := by rfl
  have ranged : (Settings.ofMillis 8).InRange := by decide
  have inside : Reading.InRange (0 + (Settings.ofMillis 8).leaseMillis) := by decide
  obtain ⟨v, w, p, between, undelayed, present, uses, running, shows, time, row⟩ :
      ∃ (v w : World) (p : Participant), lone.Between firstCycle v lull w 0 0 ∧ v.Undelayed 0 lull
        ∧ w.participants[0]? = some p ∧ p.manager.settings = .ofMillis 8
        ∧ p.manager.lifecycle = .running ∧ w.clockOf 0 = some 4
        ∧ w.now = v.now + (Settings.ofMillis 8).interval.ceilMillis
        ∧ ⟨"x", "a", 8⟩ ∈ (w.storeOf p).rows := by
    have begins : lone.Begins := .join (.initial 0 [.freshMemory]) "a" (.ofMillis 8) 0 {}
    have calm : ∀ a ∈ lull, a.Calm := by decide
    refine ⟨_, _, _, ⟨⟨begins, ⟨_, .proceed ⟨0, .worker⟩, rfl, rfl, ?_⟩, rfl, rfl⟩, rfl, ?_, ?_⟩,
      ⟨?_, ?_⟩, rfl, rfl, rfl, rfl, rfl, .head _⟩
    · exact List.mem_of_getElem? (show _[4]? = some (Note.cycleEnded true) from rfl)
    · exact fun clock member => calm _ member
    · exact (List.not_mem_nil : .cycleBegan ∉ ([] : List Note))
    · rintro q ⟨⟩
      rfl
    · exact fun link member => calm _ member
  obtain ⟨k, clock, _, shows', _, _, next⟩ := (timing_margins (.ofMillis 8)).2 accepted ranged |>.2.2.2
    lone v w firstCycle lull 0 0 p between inside present uses running
  obtain ⟨_, _, room⟩ := next (.inl undelayed)
  obtain rfl := Option.some.inj (shows.symm.trans shows')
  refine ⟨v, w, p, accepted, ranged, between, undelayed, inside, present, uses, running, shows, time, ?_⟩
  exact room 8 rfl _ row (by decide) 0 (4 + 4) (by decide)

end World

end Leasehold
