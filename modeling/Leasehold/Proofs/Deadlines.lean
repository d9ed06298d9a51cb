import Leasehold.Proofs.Delivery
import Leasehold.Proofs.FreshGround
import Leasehold.Proofs.Upkeep
import Leasehold.World.Snapshot

/-! # The deadline of a worker that is busy

A worker that has taken up a release or begun a cycle while it holds a lease is done with it a grace window
before the point up to which that lease is confirmed, whatever the store does in between: the time that it
allows the store ends there (`Worker.Watched`), and it needs but a few steps once that time is over
(`World.Watched.rush_ends`). What it confirms meanwhile only lasts longer.
-/

namespace Leasehold

namespace Activity

/-- In the midst of a release or of a cycle. -/
def isBusy : Activity → Bool
  | .parting _ _ | .releasing _ | .cycling _ => true
  | .waiting | .draining _ => false

/-- What a release or a cycle has still to do at most: stages first, then rows that are to be deleted. -/
def ahead : Activity → Nat ×ₗ Nat
  | .parting _ _ => toLex (1, 0)
  | .cycling c =>
    match c.stage with
    | .purging _ rest => toLex (0, rest.length)
    | stage => toLex (4 - stage.index, 0)
  | .waiting | .draining _ | .releasing _ => toLex (0, 0)

end Activity

namespace Worker

variable {w : Worker} {s s' : Surroundings} {queue : List Command} {store : Backend} {r : WorkerStep}
  {point : Int}

theorem not_busy_afterCommand (b : Batch) : (afterCommand b).isBusy = false := by
  rcases idle_afterCommand b with eq | ⟨_, eq⟩ <;> rw [eq] <;> rfl

theorem not_busy_of_listening {b : Batch} (listening : w.batch? = some b) :
    w.activity.isBusy = false := by
  cases activity : w.activity with
  | waiting | draining => rfl
  | parting | releasing | cycling => simp [batch?, activity] at listening

/-! ## How far a step has come -/

theorem ahead_purge (c : Cycle) (names : List String)
    (busy : (w.purge s c names).1.activity.isBusy = true) :
    (w.purge s c names).1.activity.ahead < toLex (0, names.length) := by
  cases names with
  | nil => cases busy
  | cons name rest => exact Prod.Lex.toLex_lt_toLex.mpr (.inr ⟨rfl, Nat.lt_succ_self _⟩)

/-- An answer leaves less to do. -/
theorem ahead_resume {c : Cycle} {reply : Reply} (cycling : w.activity = .cycling c)
    (busy : (w.resume s c reply).1.activity.isBusy = true) :
    (w.resume s c reply).1.activity.ahead < w.activity.ahead := by
  have later {i j k : Nat} (less : i < j) : toLex (i, k) < toLex (j, 0) :=
    Prod.Lex.toLex_lt_toLex.mpr (.inl less)
  rw [cycling]
  cases stage : c.stage with
  | collecting =>
    simp only [resume, stage, askNext, Activity.ahead, Stage.index]
    exact later (by decide)
  | refreshing =>
    simp only [resume, stage]
    split
    · simp only [askNext, Activity.ahead, stage, Stage.index]
      exact later (by decide)
    · simp only [askNext, Activity.ahead, stage, Stage.index]
      exact later (by decide)
  | claiming =>
    simp only [resume, stage, askNext, Activity.ahead, Stage.index]
    exact later (by decide)
  | selecting =>
    simp only [resume, stage] at busy ⊢
    refine lt_trans (ahead_purge c _ busy) ?_
    simp only [Activity.ahead, stage, Stage.index]
    exact later (by decide)
  | purging name rest =>
    simp only [resume, stage] at busy ⊢
    simpa only [Activity.ahead, stage] using ahead_purge c rest busy

theorem Move.ahead_lt (move : w.Move s queue store r) (busy : w.activity.isBusy = true)
    (busy' : r.worker.activity.isBusy = true) : r.worker.activity.ahead < w.activity.ahead := by
  cases move with
  | take listening => cases (not_busy_of_listening listening).symm.trans busy
  | beginCycle draining => simp [Activity.isBusy, draining] at busy
  | beginRelease parting =>
    rw [parting]
    exact Prod.Lex.toLex_lt_toLex.mpr (.inl Nat.zero_lt_one)
  | @endRelease _ _ r releasing due => cases (not_busy_afterCommand r.batch).symm.trans busy'
  | @abandonRelease _ _ r releasing pending late =>
    cases (not_busy_afterCommand r.batch).symm.trans busy'
  | resume cycling due answered => exact ahead_resume cycling busy'
  | failCycle | overrun => cases busy'

/-! ## How long a step may take -/

/-- What the worker is busy with began while it held a lease that is confirmed up to `point`, and ends a
    grace window before that. -/
structure Watched (s : Surroundings) (point : Int) (w : Worker) : Prop where
  early : s.clock ≤ point - s.settings.graceMillis
  parting : ∀ name b, w.activity = .parting name b → w.pledge? = some point
  deadline : ∀ deadline, w.deadline? = some deadline →
    s.now ≤ deadline ∧ s.clock + deadline ≤ point - s.settings.graceMillis + s.now
  confirmed : ∃ later, point ≤ later ∧ w.confirmedUntil = some later

theorem Watched.frame (h : w.Watched s point) (now : s'.now = s.now) (clock : s'.clock = s.clock)
    (settings : s'.settings = s.settings) : w.Watched s' point := by
  refine ⟨?_, h.parting, ?_, h.confirmed⟩
  · rw [clock, settings]
    exact h.early
  · rw [now, clock, settings]
    exact h.deadline

theorem Watched.abort (h : w.Watched s point) (aborted : Bool) :
    ({ w with aborted } : Worker).Watched s point := ⟨h.early, h.parting, h.deadline, h.confirmed⟩

theorem Watched.lt_of_rests (h : w.Watched s point) (busy : w.activity.isBusy = true)
    (rests : w.step s queue store = none) :
    s.clock < point - s.settings.graceMillis
      ∧ ∃ deadline, w.deadline? = some deadline ∧ s.now < deadline := by
  rcases rest_cases rests with ⟨waiting, _⟩ | ⟨_, deadline, _, due, _, ahead⟩
  · simp [Activity.isBusy, waiting] at busy
  · obtain ⟨_, within⟩ := h.deadline deadline due
    exact ⟨by omega, deadline, due, ahead⟩

theorem Watched.tick (h : w.Watched s point) (busy : w.activity.isBusy = true)
    (rests : w.step s queue store = none) (now : s'.now = s.now + 1) (clock : s'.clock ≤ s.clock + 1)
    (settings : s'.settings = s.settings) : w.Watched s' point := by
  obtain ⟨left, deadline, due, ahead⟩ := h.lt_of_rests busy rests
  refine ⟨?_, h.parting, fun deadline' due' => ?_, h.confirmed⟩
  · rw [settings]
    omega
  · obtain rfl := Option.some.inj (due.symm.trans due')
    obtain ⟨_, within⟩ := h.deadline deadline due
    rw [now, settings]
    push_cast
    omega

theorem watched_idle (early : s.clock ≤ point - s.settings.graceMillis)
    (confirmed : ∃ later, point ≤ later ∧ w.confirmedUntil = some later)
    (idle : w.activity.isBusy = false) : w.Watched s point := by
  refine ⟨early, fun name b parting => ?_, fun deadline due => ?_, confirmed⟩
  · simp [Activity.isBusy, parting] at idle
  · cases activity : w.activity with
    | waiting | draining | parting => simp [deadline?, activity] at due
    | releasing | cycling => simp [Activity.isBusy, activity] at idle

theorem watched_of_allowance {w' : Worker} (inside : Reading.min ≤ s.clock)
    (early : s.clock ≤ point - s.settings.graceMillis) (pledged : w.pledge? = some point)
    (confirmed : w'.confirmedUntil = w.confirmedUntil)
    (plain : ∀ name b, w'.activity ≠ .parting name b)
    (due : w'.deadline? = some (s.now + (w.allowance s).ceilMillis)) : w'.Watched s point := by
  refine ⟨early, fun name b parting => absurd parting (plain name b), fun deadline due' => ?_,
    point, le_rfl, ?_⟩
  · obtain rfl := Option.some.inj (due.symm.trans due')
    refine ⟨Nat.le_add_right _ _, ?_⟩
    rcases before_allowance inside point pledged with soon | before
    · omega
    · exact before
  · rw [confirmed]
    exact (Option.ite_none_right_eq_some.mp pledged).2

theorem Move.watched_of_idle (move : w.Move s queue store r) (inside : Reading.min ≤ s.clock)
    (idle : w.activity.isBusy = false) (pledged : r.worker.pledge? = some point)
    (early : s.clock ≤ point - s.settings.graceMillis) : r.worker.Watched s point := by
  have known : r.worker.confirmedUntil = some point := (Option.ite_none_right_eq_some.mp pledged).2
  have busy {activity : Activity} (is : w.activity = activity) : activity.isBusy = false := is ▸ idle
  cases move with
  | @take c _ _ b listening =>
    rcases w.apply_activity c b with ⟨eq, _⟩ | ⟨⟨name, eq, _⟩, _⟩ | ⟨ticket, _, eq⟩
    · exact watched_idle early ⟨point, le_rfl, known⟩ (by rw [eq]; exact not_busy_afterCommand b)
    · refine ⟨early, fun _ _ _ => pledged, fun deadline due => ?_, point, le_rfl, known⟩
      simp [deadline?, eq] at due
    · exact watched_idle early ⟨point, le_rfl, known⟩ (by rw [eq]; rfl)
  | beginCycle draining =>
    exact watched_of_allowance (w := w) inside early pledged rfl (fun _ _ is => by cases is) rfl
  | beginRelease parting => cases busy parting
  | endRelease releasing | abandonRelease releasing => cases busy releasing
  | resume cycling | failCycle cycling | overrun cycling => cases busy cycling

/-- A busy worker that is watched stays so until it is done. -/
theorem Watched.move (h : w.Watched s point) (sound : w.Sound s) (inside : Reading.min ≤ s.clock)
    (busy : w.activity.isBusy = true) (move : w.Move s queue store r) : r.worker.Watched s point := by
  have still {w' : Worker} (same : w'.confirmedUntil = w.confirmedUntil) :
      ∃ later, point ≤ later ∧ w'.confirmedUntil = some later := by
    rw [same]
    exact h.confirmed
  cases move with
  | take listening => cases (not_busy_of_listening listening).symm.trans busy
  | beginCycle draining => simp [Activity.isBusy, draining] at busy
  | beginRelease parting =>
    exact watched_of_allowance (w := w) inside h.early (h.parting _ _ parting) rfl
      (fun _ _ is => by cases is) rfl
  | @endRelease _ _ r releasing due =>
    exact watched_idle h.early (still rfl) (not_busy_afterCommand r.batch)
  | @abandonRelease _ _ r releasing pending late =>
    exact watched_idle h.early (still (w.confirmed_giveUp s)) (not_busy_afterCommand r.batch)
  | @resume _ _ c reply cycling due answered =>
    have later : ∃ later, point ≤ later ∧ (w.resume s c reply).1.confirmedUntil = some later := by
      rcases w.resume_eq s c reply with ⟨_, activity, eq⟩ | ⟨_, activity, eq⟩
      · exact still (by rw [eq])
      · -- What a cycle confirms is never less than what was confirmed before.
        obtain ⟨later, le, known⟩ := h.confirmed
        refine ⟨c.expiration, le.trans ((sound.cycling c cycling).confirmed later known), ?_⟩
        rw [eq]
        rfl
    rcases w.resume_cases s c reply with ⟨stage, call, eq⟩ | ⟨waiting, _⟩
    · refine ⟨h.early, fun _ _ parting => (by cases eq.symm.trans parting), fun deadline due' => ?_, later⟩
      exact h.deadline deadline (by simpa [deadline?, eq, cycling] using due')
    · exact watched_idle h.early later (by rw [waiting]; rfl)
  | failCycle cycling due failed => exact watched_idle h.early (still (w.confirmed_giveUp s)) rfl
  | overrun cycling pending late => exact watched_idle h.early (still (w.confirmed_giveUp s)) rfl

theorem silent_plain {notes : List Note} (plain : Plain notes) :
    ¬ (.cycleBegan ∈ notes ∨ ∃ c, .applied c ∈ notes) := by
  rintro (began | ⟨c, applied⟩)
  · cases plain _ began
  · cases plain _ applied

theorem silent_ended {c : Call} {notes : List Note} (plain : Plain notes) :
    ¬ (.cycleBegan ∈ (c.finish .worker s.trueTime store).2.2 ++ notes
      ∨ ∃ command, .applied command ∈ (c.finish .worker s.trueTime store).2.2 ++ notes) := by
  have ended {n : Note} (member : n ∈ (c.finish .worker s.trueTime store).2.2) :
      n ≠ .cycleBegan ∧ ∀ command, n ≠ .applied command := by
    rcases Call.mem_finish member with rfl | ⟨_, rfl⟩ | ⟨_, rfl⟩ | ⟨_, _, _, rfl⟩ <;>
      exact ⟨nofun, nofun⟩
  rintro (began | ⟨command, applied⟩)
  · rcases List.mem_append.mp began with early | last
    · exact (ended early).1 rfl
    · exact silent_plain plain (.inl last)
  · rcases List.mem_append.mp applied with early | last
    · exact (ended early).2 command rfl
    · exact silent_plain plain (.inr ⟨command, last⟩)

theorem Move.idle_of_start (move : w.Move s queue store r)
    (starts : .cycleBegan ∈ r.notes ∨ ∃ c, .applied c ∈ r.notes) : w.activity.isBusy = false := by
  cases move with
  | take listening => exact not_busy_of_listening listening
  | beginCycle draining => rw [draining]; rfl
  | beginRelease parting =>
    rcases starts with began | ⟨c, applied⟩
    · simp [Worker.beginRelease, ask] at began
    · simp [Worker.beginRelease, ask] at applied
  | endRelease releasing due => exact (silent_ended (remarks_endRelease _ _).plain starts).elim
  | abandonRelease releasing pending late =>
    have told : ∀ call text fields, Plain [.cancelled .worker call, .log .warn text fields] := by
      simp [Plain, Note.isPlain]
    exact (silent_plain (plain_append (told _ _ _) remarks_giveUp.plain) starts).elim
  | resume cycling due answered => exact (silent_ended (plain_resume _ _) starts).elim
  | failCycle cycling due failed => exact (silent_ended (plain_failCycle _ _ _) starts).elim
  | overrun cycling pending late =>
    have told : ∀ call, Plain [.cancelled .worker call] := by simp [Plain, Note.isPlain]
    exact (silent_plain (plain_append (told _) (plain_failCycle _ _ _)) starts).elim

end Worker

theorem Manager.worker_of_stepWorker {m m' : Manager} {s : Surroundings} {store b : Backend}
    {notes : List Note} (h : m.stepWorker s store = some (m', b, notes)) :
    ∃ w r, m.worker = some w ∧ w.Move s m.queue store r ∧ m'.worker = some r.worker := by
  obtain ⟨w, present, h⟩ := Option.bind_eq_some_iff.mp h
  obtain ⟨r, step, h⟩ := Option.map_eq_some_iff.mp h
  cases h
  rw [publishAll_eq]
  exact ⟨w, r, present, Worker.move_of_step step, rfl⟩

namespace World

variable {start w w' : World} {i : Nat} {p p' : Participant} {a : Action} {latest : Option Int}
  {settings : Settings} {point : Int}

/-! ## Who has a store -/

theorem store_of_run {actions : List Action} (run : w.run? actions = some w')
    (present : w.participants[i]? = some p) (present' : w'.participants[i]? = some p') :
    p'.store = p.store ∧ w'.stores.length = w.stores.length := by
  have step (v : World) (a : Action) (v' : World)
      (h : ∀ q, v.participants[i]? = some q → q.store = p.store ∧ v.stores.length = w.stores.length)
      (_ : True) (change : v.Change a v') : ∀ q, v'.participants[i]? = some q →
        q.store = p.store ∧ v'.stores.length = w.stores.length := by
    intro q' there'
    obtain ⟨q, there, store, _⟩ := change.stays there'
    rw [store, change.length_stores]
    exact h q there
  refine run?_preserves step (fun _ _ => trivial) run (fun q there => ?_) p' present'
  obtain rfl := Option.some.inj (present.symm.trans there)
  exact ⟨rfl, rfl⟩

/-- A manager that has no store never gets a worker. -/
theorem Deed.worker_none {m : Manager} {notes : List Note} (deed : w.Deed w' i p m notes)
    (staged : p.manager.Staged) (lacks : ¬ p.store < w.stores.length) (idle : p.manager.worker = none) :
    m.worker = none := by
  obtain ⟨b, move⟩ := deed.move
  cases move.shift staged with
  | create name =>
    obtain ⟨registry, handles, queue, eq⟩ := p.manager.createHandle_eq name
    rw [eq]
    exact idle
  | release id =>
    obtain ⟨registry, handles, queue, eq⟩ := p.manager.releaseHandle_eq id
    rw [eq]
    exact idle
  | work present _ => cases idle.symm.trans present
  | request | pace => exact idle
  | stage staging =>
    cases staging with
    | launch _ _ _ _ won _ => exact absurd (deed.placed (by rw [won]; decide)) lacks
    | keep keeps _ _ _ =>
      have same := keeps.isSome_worker
      rw [idle] at same
      simpa using same
  | reap _ _ _ closed =>
    obtain ⟨queue, eq⟩ := ({ p.manager with worker := none } : Manager).dropQueue_eq
    rw [eq]

theorem Reachable.placed_of_worker (reachable : w.Reachable) (present : w.participants[i]? = some p)
    {k : Worker} (worker : p.manager.worker = some k) : p.store < w.stores.length := by
  obtain ⟨start, actions, begins, run⟩ := reachable
  have step (v : World) (a : Action) (v' : World)
      (h : v.Reachable ∧ ∀ q, v.participants[i]? = some q →
        q.store < v.stores.length ∨ q.manager.worker = none)
      (act : v.act? a = some v') : v'.Reachable ∧ ∀ q, v'.participants[i]? = some q →
        q.store < v'.stores.length ∨ q.manager.worker = none := by
    obtain ⟨reachable, h⟩ := h
    refine ⟨reachable.act act, fun q' there' => ?_⟩
    obtain ⟨q, there, follows⟩ := deed_of_act? act there'
    by_cases placed : q.store < v.stores.length
    · exact .inl ((change_of_act? act).placed there there' placed)
    · have none := (h q there).resolve_left placed
      rcases follows with ⟨same, _⟩ | ⟨notes, deed, _⟩
      · exact .inr (same ▸ none)
      · exact .inr (deed.worker_none (reachable.staged (List.mem_of_getElem? there)) placed none)
  have fresh : ∀ q, start.participants[i]? = some q →
      q.store < start.stores.length ∨ q.manager.worker = none := by
    intro q there
    obtain ⟨owner, settings, eq⟩ := begins.manager_fresh (List.mem_of_getElem? there)
    exact .inr (by rw [eq]; rfl)
  have held := run?_induction step run ⟨⟨start, [], begins, rfl⟩, fresh⟩
  refine (held.2 p present).resolve_right fun none => ?_
  cases none.symm.trans worker

/-! ## Until the worker is done -/

/-- The worker of a participant is in the midst of a release or of a cycle. -/
def Busy (w : World) (i : Nat) : Prop :=
  ∃ p k, w.participants[i]? = some p ∧ p.manager.worker = some k ∧ k.activity.isBusy = true

/-- The worlds from `start` to the end of what the worker is busy with, that end included: whatever else
    happens, and in whichever order, as long as nobody sets the clock of the participant. -/
inductive UntilDone (start : World) (i : Nat) : World → Prop where
  | start : UntilDone start i start
  | act {w w' : World} {a : Action} (before : UntilDone start i w) (busy : w.Busy i)
      (unset : ∀ clock, a ≠ .setClock i clock) (act : w.act? a = some w') : UntilDone start i w'

/-- The worker of a participant with these settings is watched. -/
structure Watched (w : World) (i : Nat) (settings : Settings) (point : Int) : Prop where
  manager : ∀ p, w.participants[i]? = some p →
    p.manager.Staged ∧ p.manager.Modest ∧ p.manager.settings = settings
  early : ∀ p, w.participants[i]? = some p → (w.surroundings p).clock ≤ point - settings.graceMillis
  worker : ∀ p, w.participants[i]? = some p → ∀ k, p.manager.worker = some k →
    k.Watched (w.surroundings p) point

theorem Watched.elapse (h : w.Watched i settings point) (inTime : w.InTime i latest) (busy : w.Busy i)
    (quiet : w.isQuiet = true) : (w.elapse 1).Watched i settings point := by
  obtain ⟨p, k, present, worker, active⟩ := busy
  have rests := (resting_of_quiet quiet present (inTime.placed p present)).worker k worker
  have watched : k.Watched ((w.elapse 1).surroundings p) point :=
    (h.worker p present k worker).tick active rests.2 rfl (reading_elapse p.clock w).2 rfl
  refine ⟨h.manager, fun q there => ?_, fun q there l worker' => ?_⟩
  · obtain rfl := Option.some.inj (present.symm.trans there)
    rw [← (h.manager p present).2.2]
    exact watched.early
  · obtain rfl := Option.some.inj (present.symm.trans there)
    obtain rfl := Option.some.inj (worker.symm.trans worker')
    exact watched

theorem Watched.move (h : w.Watched i settings point) (inTime : w.InTime i latest)
    (present : w.participants[i]? = some p) {k : Worker} (worker : p.manager.worker = some k)
    (busy : k.activity.isBusy = true) {m : Manager} {b : Backend} {notes : List Note}
    (move : p.manager.Move (w.surroundings p) (w.storeOf p) m b notes) {l : Worker}
    (worker' : m.worker = some l) : l.Watched (w.surroundings p) point := by
  obtain ⟨staged, modest, _⟩ := h.manager p present
  have watched := h.worker p present
  cases move.live staged modest with
  | launch new _ _ _ => cases new.symm.trans worker
  | work there step eq _ _ =>
    cases there.symm.trans worker
    cases eq.symm.trans worker'
    exact (watched k worker).move (inTime.sound p present k worker) (p.clock.min_le_reading w.trueTime)
      busy step
  | pace _ _ same _ _ => exact watched l (same ▸ worker')
  | aside there eq _ _ =>
    cases eq.symm.trans worker'
    exact (watched _ there).abort _
  | gone none _ => cases none.symm.trans worker'

theorem Watched.change (h : w.Watched i settings point) (inTime : w.InTime i latest) (busy : w.Busy i)
    (unset : ∀ clock, a ≠ .setClock i clock) (change : w.Change a w') :
    w'.Watched i settings point := by
  by_cases passed : w.isQuiet = true ∧ w' = w.elapse 1
  · obtain ⟨quiet, rfl⟩ := passed
    exact h.elapse inTime busy quiet
  have moves {p' : Participant} (present' : w'.participants[i]? = some p') :=
    (change.passes unset present').resolve_right fun ⟨quiet, eq, _⟩ => passed ⟨quiet, eq⟩
  refine ⟨fun p' present' => ?_, fun p' present' => ?_, fun p' present' l worker' => ?_⟩
  · obtain ⟨p, present, _, _, _, ⟨same, _⟩ | ⟨b, move⟩⟩ := moves present'
    · exact same ▸ h.manager p present
    · obtain ⟨staged, modest, kept⟩ := h.manager p present
      exact ⟨staged.move move, modest.move move, move.frame.2.trans kept⟩
  · obtain ⟨p, present, _, _, clock, _⟩ := moves present'
    rw [clock]
    exact h.early p present
  · obtain ⟨p, present, _, now, clock, ⟨same, _⟩ | ⟨b, move⟩⟩ := moves present'
    · exact (h.worker p present l (same ▸ worker')).frame now clock (congrArg Manager.settings same)
    · obtain ⟨q, k, there, worker, active⟩ := busy
      obtain rfl := Option.some.inj (present.symm.trans there)
      exact (h.move inTime present worker active move worker').frame (s := w.surroundings p) now clock
        move.frame.2

/-- A busy worker is done after a few steps, or it waits for the store while there is time. -/
theorem Watched.rush_ends (h : w.Watched i settings point) (inTime : w.InTime i latest)
    (present : w.participants[i]? = some p) {k : Worker} (worker : p.manager.worker = some k)
    (busy : k.activity.isBusy = true) : ∃ n, ¬ (w.rush ⟨i, .worker⟩ n).Busy i
      ∨ (w.rush ⟨i, .worker⟩ n).stepTask? ⟨i, .worker⟩ = none
        ∧ (w.surroundings p).clock < point - settings.graceMillis := by
  induction left : k.activity.ahead using WellFoundedLT.induction generalizing w p k latest with
  | _ _ ih =>
    subst left
    cases step : w.stepTask? ⟨i, .worker⟩ with
    | none =>
      have found : w.stores[p.store]? = some (w.storeOf p) := by
        simp [storeOf, inTime.placed p present]
      have rests : k.step (w.surroundings p) p.manager.queue (w.storeOf p) = none := by
        cases some : k.step (w.surroundings p) p.manager.queue (w.storeOf p) with
        | none => rfl
        | some r => simp [stepTask?, present, found, Manager.stepTask, Manager.stepWorker, worker, some] at step
      have kept := (h.manager p present).2.2
      exact ⟨0, .inr ⟨step, kept ▸ ((h.worker p present k worker).lt_of_rests busy rests).1⟩⟩
    | some result =>
      obtain ⟨next, notes⟩ := result
      have rushed (n : Nat) : w.rush ⟨i, .worker⟩ (n + 1) = next.rush ⟨i, .worker⟩ n := by
        simp [rush, step]
      by_cases goesOn : next.Busy i
      · obtain ⟨q, m, b, moved, _, stepped⟩ := moved_of_stepTask? step
        have change : w.Change .tick next := .move moved
        have unset (clock : ClockSetting) : Action.tick ≠ .setClock i clock := by simp
        obtain ⟨p', k', present', worker', busy'⟩ := goesOn
        obtain rfl := Option.some.inj (present.symm.trans moved.present)
        obtain ⟨_, rfl⟩ | ⟨other, _⟩ := moved.participant_cases present'
        · obtain ⟨k₀, r, there, move, eq⟩ := Manager.worker_of_stepWorker stepped
          cases there.symm.trans worker
          cases eq.symm.trans worker'
          obtain ⟨n, ends⟩ := ih _ (move.ahead_lt busy busy') (h.change inTime ⟨_, _, present, worker, busy⟩
            unset change) (inTime.change unset change) present' worker' busy' rfl
          refine ⟨n + 1, ?_⟩
          rw [rushed]
          rw [moved.surroundings] at ends
          exact ends
        · exact absurd rfl other
      · exact ⟨1, .inl (by rw [rushed]; exact goesOn)⟩

theorem Reachable.inTime {actions : List Action} (begins : start.Begins)
    (unset : ∀ clock, .setClock i clock ∉ actions) (run : start.run? actions = some w)
    (present : w.participants[i]? = some p) {k : Worker} (worker : p.manager.worker = some k) :
    w.InTime i (start.cycleStart i actions) := by
  refine run?_keeps_start (P := fun v latest => v.InTime i latest)
    (fun v a v' latest h unset change => h.change unset change) (fun a member clock => ?_) run
    (begins.inTime fun q there => ?_)
  · rintro rfl
    exact unset clock member
  · have placed := Reachable.placed_of_worker ⟨start, actions, begins, run⟩ present worker
    obtain ⟨store, stores⟩ := store_of_run run there present
    rwa [store, stores] at placed

theorem Change.moved_of_news (change : w.Change a w') (present' : w'.participants[i]? = some p')
    {note : Note} (told : note ∈ w.newsOf w' i) :
    ∃ p m b, w.Moved i p m b (w.newsOf w' i) w' ∧ p' = { p with manager := m } := by
  have still (same : w'.notesOf i = w.notesOf i) : note ∉ w.newsOf w' i := by
    rw [newsOf, same, List.drop_length]
    exact List.not_mem_nil
  cases change with
  | @move _ j p m b notes _ moved =>
    have news := moved.news i
    by_cases own : j = i
    · subst own
      rw [if_pos rfl] at news
      rcases moved.participant_cases present' with ⟨_, eq⟩ | ⟨other, _⟩
      · exact ⟨p, m, b, news ▸ moved, eq⟩
      · exact absurd rfl other
    · rw [news, if_neg own] at told
      cases told
  | rest same => exact absurd told (still (notesOf_of_journal same.journal i))
  | tick | setLink | setClock => exact absurd told (still rfl)
  | use store request => exact absurd told (still (w.notesOf_use store request i))
  | land landed => exact absurd told (still (landed.notesOf_eq i))

/-- What a worker begins while it holds a lease is watched. -/
theorem watched_of_start (reachable : w.Reachable) (act : w.act? a = some w')
    (starts : .cycleBegan ∈ w.newsOf w' i ∨ ∃ c, .applied c ∈ w.newsOf w' i)
    (present' : w'.participants[i]? = some p') {k : Worker} (worker' : p'.manager.worker = some k)
    (pledged : k.pledge? = some point)
    (early : (w'.surroundings p').clock ≤ point - p'.manager.settings.graceMillis) :
    w'.Watched i p'.manager.settings point := by
  have member := List.mem_of_getElem? present'
  have reachable' := reachable.act act
  obtain ⟨note, told, work⟩ : ∃ note ∈ w.newsOf w' i, note = .cycleBegan ∨ ∃ c, note = .applied c := by
    rcases starts with began | ⟨c, applied⟩
    · exact ⟨_, began, .inl rfl⟩
    · exact ⟨_, applied, .inr ⟨c, rfl⟩⟩
  obtain ⟨p, m, b, moved, rfl⟩ := (change_of_act? act).moved_of_news present' told
  have watched : k.Watched (w'.surroundings { p with manager := m }) point := by
    rcases moved.move.work_cases with ⟨k₀, r, present, step, eq, _, noted⟩ | aside
    · rw [noted] at starts
      change m.worker = some k at worker'
      rw [eq, Manager.publishAll_eq] at worker'
      cases worker'
      rw [moved.surroundings] at early ⊢
      have settings : m.settings = p.manager.settings := moved.move.frame.2
      replace early : (w.surroundings p).clock ≤ point - m.settings.graceMillis := early
      rw [settings] at early
      exact (step.watched_of_idle (p.clock.min_le_reading w.trueTime) (step.idle_of_start starts) pledged
        early).frame rfl rfl settings
    · rcases work with rfl | ⟨c, rfl⟩
      · obtain ⟨_, eq⟩ := aside.aloof _ told rfl
        cases eq
      · obtain ⟨_, eq⟩ := aside.aloof _ told rfl
        cases eq
  refine ⟨fun q there => ?_, fun q there => ?_, fun q there l worker => ?_⟩
  · obtain rfl := Option.some.inj (present'.symm.trans there)
    refine ⟨reachable'.staged member, ?_, rfl⟩
    exact reachable'.manager Manager.modest_fresh (fun _ _ _ _ _ _ modest move => modest.move move) member
  · obtain rfl := Option.some.inj (present'.symm.trans there)
    exact early
  · obtain rfl := Option.some.inj (present'.symm.trans there)
    cases worker.symm.trans worker'
    exact watched

theorem UntilDone.watched (lasts : start.UntilDone i w) (watched : start.Watched i settings point)
    (inTime : start.InTime i latest) : w.Watched i settings point ∧ ∃ latest, w.InTime i latest := by
  induction lasts with
  | start => exact ⟨watched, latest, inTime⟩
  | act before busy unset act ih =>
    obtain ⟨watched, latest, inTime⟩ := ih
    have change := change_of_act? act
    exact ⟨watched.change inTime busy unset change, _, inTime.change unset change⟩

theorem UntilDone.present (lasts : start.UntilDone i w) (present : start.participants[i]? = some p) :
    ∃ p', w.participants[i]? = some p' := by
  induction lasts with
  | start => exact ⟨p, present⟩
  | act before busy unset act ih =>
    obtain ⟨q, there⟩ := ih
    exact present_of_run (run?_singleton act) there

/-- A worker that begins a cycle, or takes up a release, while it holds a lease is done with it a grace
    window before the point up to which the lease is confirmed, whatever the store does meanwhile: the
    clock is not past that moment until the worker is done, and when the clock has come to it, the worker
    is done without waiting any more. In the end nothing is held, or the clock is not past the same moment
    before the point that has been confirmed by then. -/
theorem busy_until_deadline {actions : List Action} {v : World} {k : Worker} (begins : start.Begins)
    (unset : ∀ clock, .setClock i clock ∉ actions) (run : start.run? actions = some w)
    (act : w.act? a = some v)
    (starts : .cycleBegan ∈ w.newsOf v i ∨ ∃ name id, .applied (.release name id) ∈ w.newsOf v i)
    (present : v.participants[i]? = some p) (worker : p.manager.worker = some k)
    (holding : k.slots.holding = true) :
    ∃ point, k.confirmedUntil = some point
      ∧ ((v.surroundings p).clock ≤ point - p.manager.settings.graceMillis →
        ∀ v', v.UntilDone i v' → ∃ p', v'.participants[i]? = some p'
          ∧ (v'.surroundings p').clock ≤ point - p.manager.settings.graceMillis
          ∧ (v'.Busy i → ∃ n, ¬ (v'.rush ⟨i, .worker⟩ n).Busy i
            ∨ (v'.rush ⟨i, .worker⟩ n).stepTask? ⟨i, .worker⟩ = none
              ∧ (v'.surroundings p').clock < point - p.manager.settings.graceMillis)
          ∧ (¬ v'.Busy i → ∀ k', p'.manager.worker = some k' → k'.slots.holding = false
            ∨ ∃ point', point ≤ point' ∧ k'.confirmedUntil = some point'
              ∧ (v'.surroundings p').clock ≤ point' - p.manager.settings.graceMillis)) := by
  have reachable : w.Reachable := ⟨start, actions, begins, run⟩
  have starts : .cycleBegan ∈ w.newsOf v i ∨ ∃ c, .applied c ∈ w.newsOf v i :=
    starts.imp_right fun ⟨name, id, applied⟩ => ⟨_, applied⟩
  have unset' : ∀ clock, a ≠ .setClock i clock := by
    rintro clock rfl
    cases act
    have none : w.newsOf (w.setClock i clock) i = [] := List.drop_length
    rw [none] at starts
    simp at starts
  have inTime : v.InTime i (start.cycleStart i (actions ++ [a])) := by
    refine Reachable.inTime begins (fun clock member => ?_) ?_ present worker
    · rcases List.mem_append.mp member with early | last
      · exact unset clock early
      · exact unset' clock (List.mem_singleton.mp last).symm
    · rw [run?_append, run, Option.bind_some]
      exact run?_singleton act
  have keyed := ((reachable.act act).truthful (List.mem_of_getElem? present)).slots_keyed worker
  obtain ⟨point, known, pledged⟩ :=
    Worker.pledge_of_holding (inTime.sound p present k worker) keyed holding
  refine ⟨point, known, fun early v' lasts => ?_⟩
  obtain ⟨watched, latest, inTime'⟩ :=
    lasts.watched (watched_of_start reachable act starts present worker pledged early) inTime
  obtain ⟨p', present'⟩ := lasts.present present
  refine ⟨p', present', watched.early p' present', fun busy => ?_, fun done k' worker' => ?_⟩
  · obtain ⟨q, l, there, worker', active⟩ := busy
    obtain rfl := Option.some.inj (there.symm.trans present')
    exact watched.rush_ends inTime' there worker' active
  · obtain ⟨later, le, known'⟩ := (watched.worker p' present' k' worker').confirmed
    have before := watched.early p' present'
    exact .inr ⟨later, le, known', by omega⟩

/-- The store hangs when a manager is about to renew its lease. -/
def stalled : List Action :=
  .start 0 :: turn 0 (.attempt 0) 4 ++ [.create 0 "x"] ++ turn 0 .scheduler 2 ++ turn 0 .worker 9
    ++ turn 0 .scheduler 2 ++ [.setLink 0 { hanging := [.deleteExpired] }] ++ List.replicate 4 .tick
    ++ turn 0 .scheduler 3 ++ turn 0 .worker 1

set_option maxRecDepth 1000 in
/-- The lease is confirmed up to eight, and given up at six. -/
theorem busy_until_deadline_stalled : ∃ w v v' : World, lone.Begins
    ∧ (∀ clock, .setClock 0 clock ∉ stalled) ∧ lone.run? stalled = some w
    ∧ w.act? (.proceed ⟨0, .worker⟩) = some v ∧ .cycleBegan ∈ w.newsOf v 0 ∧ v.clockOf 0 = some 4
    ∧ v.UntilDone 0 v' ∧ v'.clockOf 0 = some 6
    ∧ ∃ p k p' k', v.participants[0]? = some p ∧ p.manager.worker = some k ∧ k.slots.holding = true
      ∧ k.confirmedUntil = some 8 ∧ v'.participants[0]? = some p' ∧ (v'.surroundings p').clock ≤ 8 - 2
      ∧ ¬ v'.Busy 0 ∧ p'.manager.worker = some k' ∧ k'.slots.holding = false := by
  have begins : lone.Begins := .join (.initial 0 [.freshMemory]) "a" (.ofMillis 8) 0 {}
  have steady : ∀ a ∈ stalled, a.Steady := by decide
  have unset : ∀ clock, .setClock 0 clock ∉ stalled := fun clock member => steady _ member
  obtain ⟨w, v, p, k, run, act, told, shows, present, worker, holding, confirmed, grace, early, v', ends⟩ :
      ∃ (w v : World) (p : Participant) (k : Worker), lone.run? stalled = some w
        ∧ w.act? (.proceed ⟨0, .worker⟩) = some v ∧ .cycleBegan ∈ w.newsOf v 0 ∧ v.clockOf 0 = some 4
        ∧ v.participants[0]? = some p ∧ p.manager.worker = some k ∧ k.slots.holding = true ∧ k.confirmedUntil = some 8
        ∧ p.manager.settings.graceMillis = 2 ∧ (v.surroundings p).clock ≤ 8 - 2
        ∧ ∃ v', v.UntilDone 0 v' ∧ v'.clockOf 0 = some 6 ∧ ¬ v'.Busy 0
          ∧ ∃ p' k', v'.participants[0]? = some p' ∧ p'.manager.worker = some k'
            ∧ k'.slots.holding = false := by
    refine ⟨_, _, _, _, rfl, rfl, .head _, rfl, rfl, rfl, rfl, rfl, rfl, by decide, ?_⟩
    -- The worker rests, two milliseconds pass, and the worker finds that its time is over.
    refine ⟨_, .act (a := .proceed ⟨0, .worker⟩) (.act (a := .pick ⟨0, .worker⟩) (.act (a := .tick)
      (.act (a := .tick) (.act (a := .proceed ⟨0, .worker⟩) .start ⟨_, _, rfl, rfl, rfl⟩ nofun rfl)
      ⟨_, _, rfl, rfl, rfl⟩ nofun rfl) ⟨_, _, rfl, rfl, rfl⟩ nofun rfl) ⟨_, _, rfl, rfl, rfl⟩ nofun rfl)
      ⟨_, _, rfl, rfl, rfl⟩ nofun rfl,
      rfl, ?_, _, _, rfl, rfl, rfl⟩
    rintro ⟨_, _, ⟨⟩, ⟨⟩, ⟨⟩⟩
  obtain ⟨lasts, shows', done, p', k', present', worker', lost⟩ := ends
  obtain ⟨point, known, guarded⟩ :=
    busy_until_deadline begins unset run act (.inl told) present worker holding
  obtain rfl : point = 8 := Option.some.inj (known.symm.trans confirmed)
  rw [grace] at guarded
  obtain ⟨q, there, inTime, _, _⟩ := guarded early v' lasts
  obtain rfl := Option.some.inj (present'.symm.trans there)
  exact ⟨w, v, v', begins, unset, run, act, told, shows, lasts, shows', p, k, p', k', present, worker,
    holding, confirmed, present', inTime, done, worker', lost⟩

end World

end Leasehold
