import Leasehold.Proofs.Lifespan
import Leasehold.Proofs.Trouble

/-! # Commands on their way to the worker

Commands that are sent before a manager runs wait for its worker. `Manager.Delivers` says that none is
lost or overtaken: what the worker has taken, followed by what is queued, is what was sent. A worker
begins no cycle before its queue is empty, so all that keeps it from the next command is a release,
for which it waits one lease duration at most (`Worker.CatchesUp`).
-/

namespace Leasehold

/-- The command that the worker takes, if it takes one. -/
def Note.applied? : Note → Option Command
  | .applied c => some c
  | _ => none

/-- The commands that the worker has taken, the first first. -/
def appliedIn (notes : List Note) : List Command := notes.filterMap Note.applied?

def Command.isRelease : Command → Bool
  | .release _ _ => true
  | _ => false

/-- How many of some commands are releases. -/
def releases (commands : List Command) : Nat := commands.countP Command.isRelease

theorem appliedIn_append (notes notes' : List Note) :
    appliedIn (notes ++ notes') = appliedIn notes ++ appliedIn notes' := List.filterMap_append

theorem releases_append (commands commands' : List Command) :
    releases (commands ++ commands') = releases commands + releases commands' := List.countP_append

theorem releases_le {commands commands' : List Command} (first : commands <+: commands') :
    releases commands ≤ releases commands' := first.sublist.countP_le

theorem Aloof.appliedIn {notes : List Note} (aloof : Aloof notes) :
    Leasehold.appliedIn notes = [] := by
  rw [Leasehold.appliedIn, List.filterMap_eq_nil_iff]
  intro n member
  cases n with
  | applied c =>
    obtain ⟨sent, eq⟩ := aloof _ member rfl
    cases eq
  | _ => rfl

theorem Routine.appliedIn {notes : List Note} (routine : Routine notes) :
    Leasehold.appliedIn notes = [] := by
  rw [Leasehold.appliedIn, List.filterMap_eq_nil_iff]
  intro n member
  have usual := routine n member
  cases n with
  | applied c => cases usual
  | _ => rfl

theorem Routine.sentIn {notes : List Note} (routine : Routine notes) : Leasehold.sentIn notes = [] := by
  rw [Leasehold.sentIn, List.filterMap_eq_nil_iff]
  intro n member
  have usual := routine n member
  cases n with
  | sent c => cases usual
  | _ => rfl

namespace Worker

variable {w : Worker} {s : Surroundings} {queue : List Command} {store : Backend} {r : WorkerStep}
  {now limit pause : Nat}

theorem Move.takes (move : w.Move s queue store r) :
    sentIn r.notes = [] ∧ appliedIn r.notes ++ r.queue = queue := by
  rcases move.routine with ⟨same, routine⟩ | ⟨c, rest, eq, _, notes, routine⟩
  · rw [routine.sentIn, routine.appliedIn, same]
    exact ⟨rfl, rfl⟩
  · have applied : appliedIn r.notes = c :: appliedIn rest := by rw [notes]; rfl
    have sent : sentIn r.notes = sentIn rest := by rw [notes]; rfl
    rw [sent, applied, routine.sentIn, routine.appliedIn, eq]
    exact ⟨rfl, rfl⟩

/-- A worker that has begun no cycle yet, and that has time until `limit` for what it has taken. -/
structure CatchesUp (now limit pause : Nat) (w : Worker) : Prop where
  unconfirmed : w.confirmedUntil = none
  cycling : ∀ c, w.activity ≠ .cycling c
  inTime : now ≤ limit
  parting : ∀ name b, w.activity = .parting name b → now + pause ≤ limit
  releasing : ∀ r, w.activity = .releasing r → r.deadline ≤ limit

theorem catchesUp_fresh (inTime : now ≤ limit) (aborted : Bool) :
    ({ fresh with aborted } : Worker).CatchesUp now limit pause := by
  constructor <;> simp [fresh, inTime]

theorem CatchesUp.abort (h : w.CatchesUp now limit pause) (aborted : Bool) :
    ({ w with aborted } : Worker).CatchesUp now limit pause :=
  ⟨h.unconfirmed, h.cycling, h.inTime, h.parting, h.releasing⟩

theorem catchesUp_idle {b : Batch} (unconfirmed : w.confirmedUntil = none) (inTime : now ≤ limit)
    (idle : w.activity = afterCommand b) : w.CatchesUp now limit pause := by
  constructor
  case unconfirmed => exact unconfirmed
  case inTime => exact inTime
  all_goals rcases idle_afterCommand b with eq | ⟨_, eq⟩ <;> simp [idle, eq]

theorem isRelease_of_parting {c : Command} {b b' : Batch} {name : String}
    (parting : (w.apply c b).1.activity = .parting name b') : c.isRelease = true := by
  cases c with
  | register other id =>
    rcases idle_afterCommand b with eq | ⟨_, eq⟩ <;> cases eq.symm.trans parting
  | release other id => rfl
  | maintain ticket => cases parting

theorem CatchesUp.apply (h : w.CatchesUp now limit pause) (c : Command) (b : Batch) :
    (w.apply c b).1.CatchesUp now (limit + pause * releases [c]) pause := by
  have unconfirmed : (w.apply c b).1.confirmedUntil = none := by
    obtain ⟨slots, activity, eq⟩ := w.apply_eq c b
    rw [eq]
    exact h.unconfirmed
  have inTime : now ≤ limit + pause * releases [c] := Nat.le_add_right_of_le h.inTime
  refine ⟨unconfirmed, ?_, inTime, fun name b' parting => ?_, ?_⟩
  · intro c' cycling
    rcases w.apply_activity c b with ⟨eq, _⟩ | ⟨⟨name, eq, _⟩, _⟩ | ⟨ticket, _, eq⟩
    · exact afterCommand_ne_cycling b c' (eq.symm.trans cycling)
    · cases eq.symm.trans cycling
    · cases eq.symm.trans cycling
  · have one : releases [c] = 1 := by simp [releases, isRelease_of_parting parting]
    rw [one, Nat.mul_one]
    exact Nat.add_le_add_right h.inTime pause
  · intro r releasing
    rcases w.apply_activity c b with ⟨eq, _⟩ | ⟨⟨name, eq, _⟩, _⟩ | ⟨ticket, _, eq⟩
    · rcases idle_afterCommand b with eq' | ⟨_, eq'⟩ <;>
        cases (eq.trans eq').symm.trans releasing
    · cases eq.symm.trans releasing
    · cases eq.symm.trans releasing

/-- A release that is taken gives the worker one lease duration more; the first cycle begins when
    nothing is queued. -/
theorem CatchesUp.move (h : w.CatchesUp s.now limit s.settings.leaseDuration.ceilMillis)
    (move : w.Move s queue store r) : queue = [] ∧ appliedIn r.notes = []
      ∨ r.worker.CatchesUp s.now
        (limit + s.settings.leaseDuration.ceilMillis * releases (appliedIn r.notes))
        s.settings.leaseDuration.ceilMillis := by
  have inTime {more : Nat} : s.now ≤ limit + more := Nat.le_add_right_of_le h.inTime
  cases move with
  | @take c _ _ b listening =>
    have one : appliedIn (.applied c :: (w.apply c b).2) = [c] := by
      have rest := (remarks_apply c b (w := w)).plain.routine.appliedIn
      exact congrArg (c :: ·) rest
    rw [one]
    exact .inr (h.apply c b)
  | beginCycle draining => exact .inl ⟨rfl, rfl⟩
  | @beginRelease _ _ name b parting =>
    have whole : w.allowance s = s.settings.leaseDuration := by
      rw [allowance_eq, pledge?, h.unconfirmed]
      simp
    refine .inr ⟨h.unconfirmed, ?_, inTime, ?_, ?_⟩
    · intro c cycling
      cases cycling
    · intro name' b' parting'
      cases parting'
    · rintro r ⟨⟩
      rw [whole]
      exact Nat.le_add_right_of_le (h.parting name b parting)
  | endRelease releasing due => exact .inr (catchesUp_idle h.unconfirmed inTime rfl)
  | abandonRelease releasing pending late =>
    exact .inr (catchesUp_idle ((w.confirmed_giveUp s).trans h.unconfirmed) inTime rfl)
  | resume cycling | failCycle cycling | overrun cycling => exact absurd cycling (h.cycling _)

theorem CatchesUp.tick (h : w.CatchesUp s.now limit pause) (rests : w.step s queue store = none) :
    queue = [] ∨ w.CatchesUp (s.now + 1) limit pause := by
  rcases rest_cases rests with ⟨_, empty⟩ | ⟨call, deadline, _, due, _, ahead⟩
  · exact .inl empty
  · refine .inr ?_
    cases activity : w.activity with
    | releasing r =>
      obtain rfl : r.deadline = deadline := by simpa [deadline?, activity] using due
      have last := h.releasing r activity
      refine ⟨h.unconfirmed, h.cycling, by omega, ?_, h.releasing⟩
      intro name b parting
      cases activity.symm.trans parting
    | cycling c => exact absurd activity (h.cycling c)
    | waiting | draining | parting => simp [deadline?, activity] at due

end Worker

namespace Manager

variable {m m' : Manager} {s : Surroundings} {store b : Backend} {notes past : List Note}

/-! ## In order -/

/-- The worker takes commands in the order in which they were sent, and as long as anybody listens
    the others are in the queue. -/
structure Delivers (m : Manager) (past : List Note) : Prop where
  order : appliedIn past <+: sentIn past
  queued : m.queueOpen = true → appliedIn past ++ m.queue = sentIn past

theorem delivers_fresh (owner : String) (settings : Settings) : (fresh owner settings).Delivers [] where
  order := List.prefix_refl []
  queued _ := rfl

theorem Delivers.shift (delivers : m.Delivers past) (shift : m.Shift s store m' notes) :
    m'.Delivers (past ++ notes) := by
  have keep (silent : appliedIn notes = [])
      (queued : m'.queueOpen = true → m.queueOpen = true ∧ m'.queue = m.queue ++ sentIn notes) :
      m'.Delivers (past ++ notes) := by
    constructor
    · rw [appliedIn_append, silent, List.append_nil, sentIn_append]
      exact delivers.order.trans (List.prefix_append _ _)
    · intro opened'
      obtain ⟨opened, queue⟩ := queued opened'
      rw [appliedIn_append, silent, List.append_nil, sentIn_append, queue, ← List.append_assoc,
        delivers.queued opened]
  cases shift with
  | create name =>
    obtain ⟨⟨registry, handles, eq⟩, _⟩ := m.createHandle_sent name
    refine keep (m.aloof_createHandle name).appliedIn fun opened' => ?_
    rw [eq] at opened' ⊢
    exact ⟨opened', rfl⟩
  | release id =>
    obtain ⟨⟨registry, handles, eq⟩, _⟩ := m.releaseHandle_sent id
    refine keep (m.aloof_releaseHandle id).appliedIn fun opened' => ?_
    rw [eq] at opened' ⊢
    exact ⟨opened', rfl⟩
  | @work w r present move =>
    obtain ⟨silent, taken⟩ := move.takes
    have opened := queueOpen_of_worker present
    have whole : appliedIn (past ++ r.notes) ++ r.queue = sentIn (past ++ r.notes) := by
      rw [appliedIn_append, sentIn_append, silent, List.append_nil, List.append_assoc, taken,
        delivers.queued opened]
    rw [publishAll_eq]
    exact ⟨⟨r.queue, whole⟩, fun _ => whole⟩
  | request opened running => exact keep rfl fun _ => ⟨opened, rfl⟩
  | pace running => exact keep rfl fun opened => ⟨opened, by simp [sentIn]⟩
  | stage staging =>
    refine keep staging.idle.aloof.appliedIn fun opened' => ?_
    rw [staging.idle.sentIn, List.append_nil]
    exact staging.queue opened'
  | reap stopped idle lost closed =>
    refine keep idle.aloof.appliedIn fun opened' => ?_
    obtain ⟨queue, eq⟩ := ({ m with worker := none } : Manager).dropQueue_eq
    rw [eq] at opened'
    cases closed.symm.trans opened'

/-! ## In time -/

theorem Shift.settled (shift : m.Shift s store m' notes) (begun : ¬ m.Early) : ¬ m'.Early := by
  have same (lifecycle : m'.lifecycle = m.lifecycle) : ¬ m'.Early := by
    rw [Early, lifecycle]
    exact begun
  cases shift with
  | create name =>
    obtain ⟨registry, handles, more, eq⟩ := m.createHandle_eq name
    exact same (by rw [eq])
  | release id =>
    obtain ⟨registry, handles, more, eq⟩ := m.releaseHandle_eq id
    exact same (by rw [eq])
  | work present move => exact same (by rw [publishAll_eq])
  | request opened running => exact same rfl
  | pace running => exact same rfl
  | stage staging =>
    cases staging with
    | launch early opened keeps idle won begun' => exact begun'
    | keep keeps idle lost stage =>
      rcases stage with still | stopped | ⟨early, _⟩
      · exact same still
      · simp [Early, stopped]
      · exact absurd early begun
  | reap stopped idle lost closed => exact same (lifecycle_dropQueue _)

theorem Shift.launched (shift : m.Shift s store m' notes) (won : successes notes ≠ 0) :
    ∃ aborted, m'.worker = some { Worker.fresh with aborted } := by
  cases shift with
  | create name => exact absurd (m.createHandle_sent name).2.successes won
  | release id => exact absurd (m.releaseHandle_sent id).2.successes won
  | work present move => exact absurd move.successes won
  | request opened running => exact absurd rfl won
  | pace running => exact absurd rfl won
  | stage staging =>
    cases staging with
    | launch early opened keeps idle won begun =>
      obtain ⟨k, present⟩ := Option.isSome_iff_exists.mp keeps.isSome_worker
      obtain ⟨k₀, aborted, fresh, rfl⟩ := keeps.worker_cases present
      cases fresh
      exact ⟨aborted, present⟩
    | keep keeps idle lost stage => exact absurd lost won
  | reap stopped idle lost closed => exact absurd lost won

/-- While the manager runs, its worker has taken all of some early commands, or is about to. -/
structure Attends (now since pause : Nat) (early : List Command) (m : Manager) (past : List Note) :
    Prop where
  begun : ¬ m.Early
  sent : early <+: sentIn past
  delivers : m.Delivers past
  hurries : m.lifecycle = .running → early <+: appliedIn past
    ∨ ∃ k, m.worker = some k ∧ k.CatchesUp now (since + pause * releases (appliedIn past)) pause

variable {now since pause : Nat} {early : List Command}

theorem Delivers.all (delivers : m.Delivers past) {k : Worker} (present : m.worker = some k)
    (empty : m.queue = []) : appliedIn past = sentIn past := by
  have opened := queueOpen_of_worker present
  have whole := delivers.queued opened
  rwa [empty, List.append_nil] at whole

theorem Attends.shift (h : m.Attends s.now since s.settings.leaseDuration.ceilMillis early past)
    (shift : m.Shift s store m' notes) :
    m'.Attends s.now since s.settings.leaseDuration.ceilMillis early (past ++ notes) := by
  have sent : early <+: sentIn (past ++ notes) := by
    rw [sentIn_append]
    exact h.sent.trans (List.prefix_append _ _)
  refine ⟨shift.settled h.begun, sent, h.delivers.shift shift, fun running' => ?_⟩
  rw [appliedIn_append]
  have still (silent : appliedIn notes = []) (running : m.lifecycle = .running)
      (worker : ∀ k, m.worker = some k → ∃ aborted, m'.worker = some { k with aborted }) :
      early <+: appliedIn past ++ appliedIn notes ∨ ∃ k, m'.worker = some k
        ∧ k.CatchesUp s.now (since + s.settings.leaseDuration.ceilMillis
          * releases (appliedIn past ++ appliedIn notes)) s.settings.leaseDuration.ceilMillis := by
    rw [silent, List.append_nil]
    refine (h.hurries running).imp_right fun ⟨k, present, hurries⟩ => ?_
    obtain ⟨aborted, present'⟩ := worker k present
    exact ⟨_, present', hurries.abort aborted⟩
  have same (worker : m'.worker = m.worker) (k : Worker) (there : m.worker = some k) :
      ∃ aborted, m'.worker = some { k with aborted } := ⟨k.aborted, worker.trans there⟩
  cases shift with
  | create name =>
    obtain ⟨registry, handles, more, eq⟩ := m.createHandle_eq name
    refine still (m.aloof_createHandle name).appliedIn ?_ (same (by rw [eq]))
    rwa [eq] at running'
  | release id =>
    obtain ⟨registry, handles, more, eq⟩ := m.releaseHandle_eq id
    refine still (m.aloof_releaseHandle id).appliedIn ?_ (same (by rw [eq]))
    rwa [eq] at running'
  | @work w r present move =>
    rw [publishAll_eq] at running' ⊢
    rcases h.hurries running' with taken | ⟨k, there, hurries⟩
    · exact .inl (taken.trans (List.prefix_append _ _))
    · obtain rfl := Option.some.inj (present.symm.trans there)
      rcases hurries.move move with ⟨empty, silent⟩ | hurries
      · rw [silent, List.append_nil, h.delivers.all present empty]
        exact .inl h.sent
      · refine .inr ⟨r.worker, rfl, ?_⟩
        rw [releases_append, Nat.mul_add, ← Nat.add_assoc]
        exact hurries
  | request opened running => exact still rfl running' (same rfl)
  | pace running => exact still rfl running' (same rfl)
  | stage staging =>
    cases staging with
    | launch early opened keeps idle won begun => exact absurd early h.begun
    | keep keeps idle lost stage =>
      rcases stage with lifecycle | stopped | ⟨early, _⟩
      · refine still idle.aloof.appliedIn (lifecycle.symm.trans running') fun k present => ?_
        rcases keeps.worker with same' | aborted
        · exact ⟨k.aborted, same'.trans present⟩
        · exact ⟨true, by rw [aborted, present]; rfl⟩
      · cases stopped.symm.trans running'
      · exact absurd early h.begun
  | reap stopped idle lost closed =>
    have lifecycle := (lifecycle_dropQueue { m with worker := none }).symm.trans running'
    cases stopped.symm.trans lifecycle

theorem Attends.tick (h : m.Attends s.now since pause early past) (rests : m.Resting s store) :
    m.Attends (s.now + 1) since pause early past := by
  refine ⟨h.begun, h.sent, h.delivers, fun running => ?_⟩
  rcases h.hurries running with taken | ⟨k, present, hurries⟩
  · exact .inl taken
  · rcases hurries.tick (rests.worker k present).2 with empty | hurries
    · rw [h.delivers.all present empty]
      exact .inl h.sent
    · exact .inr ⟨k, present, hurries⟩

theorem Attends.taken (h : m.Attends now since pause early past) (running : m.lifecycle = .running)
    (late : since + pause * releases early < now) : early <+: appliedIn past := by
  rcases h.hurries running with taken | ⟨k, _, hurries⟩
  · exact taken
  · rcases List.prefix_or_prefix_of_prefix h.sent h.delivers.order with taken | some
    · exact taken
    · have fewer := Nat.mul_le_mul_left pause (releases_le some)
      have inTime := hurries.inTime
      omega

end Manager

namespace World

variable {w w' : World} {i : Nat} {p p' : Participant} {a : Action} {notes : List Note}

theorem Reachable.delivers (reachable : w.Reachable) (present : w.participants[i]? = some p) :
    p.manager.Delivers (w.notesOf i) := by
  have fresh (owner : String) (settings : Settings) :
      (Manager.fresh owner settings).Staged ∧ (Manager.fresh owner settings).Delivers [] :=
    ⟨Manager.staged_fresh owner settings, Manager.delivers_fresh owner settings⟩
  refine (reachable.past (P := fun m past => m.Staged ∧ m.Delivers past) fresh ?_ present).2
  intro m s store m' b past notes ⟨staged, delivers⟩ move
  exact ⟨staged.move move, delivers.shift (move.shift staged)⟩

theorem Deed.placed {m : Manager} (deed : w.Deed w' i p m notes) (won : successes notes ≠ 0) :
    p.store < w.stores.length := by
  cases deed with
  | create name => exact absurd (p.manager.createHandle_sent name).2.successes won
  | release id => exact absurd (p.manager.releaseHandle_sent id).2.successes won
  | stop =>
    have lost : successes p.manager.stop.2 = 0 := by
      by_cases running : p.manager.lifecycle = .running <;> simp [Manager.stop, running, successes,
        Note.isSuccess]
    exact absurd lost won
  | abandon | start | list => exact absurd rfl won
  | step moving placed step => exact placed
  | reap aborted => exact absurd (p.manager.idle_reap _).2 won

theorem Change.placed (change : w.Change a w') (present : w.participants[i]? = some p)
    (present' : w'.participants[i]? = some p') (placed : p.store < w.stores.length) :
    p'.store < w'.stores.length := by
  obtain ⟨q, before, store, _⟩ := change.stays present'
  obtain rfl := Option.some.inj (present.symm.trans before)
  rwa [store, change.length_stores]

/-- The worker of a participant takes some early commands in time. -/
structure Attends (w : World) (since pause : Nat) (early : List Command) (i : Nat) (p : Participant) :
    Prop where
  placed : p.store < w.stores.length
  lease : p.manager.settings.leaseDuration.ceilMillis = pause
  staged : p.manager.Staged
  attends : p.manager.Attends w.now since pause early (w.notesOf i)

variable {since pause : Nat} {early : List Command}

theorem Attends.change (h : ∀ p, w.participants[i]? = some p → w.Attends since pause early i p)
    (change : w.Change a w') (present' : w'.participants[i]? = some p') :
    w'.Attends since pause early i p' := by
  rcases change.time_cases with ⟨now, _⟩ | ⟨quiet, rfl⟩
  · obtain ⟨p, present, still⟩ := change.past_cases present'
    obtain ⟨placed, rfl, staged, attends⟩ := h p present
    have placed' := change.placed present present' placed
    rcases still with ⟨same, past⟩ | ⟨b, notes, move, past⟩
    · refine ⟨placed', by rw [same], same ▸ staged, ?_⟩
      rw [same, past, now]
      exact attends
    · refine ⟨placed', by rw [move.frame.2], staged.move move, ?_⟩
      rw [past, now]
      exact Manager.Attends.shift (s := w.surroundings p) attends (move.shift staged)
  · obtain ⟨placed, length, staged, attends⟩ := h p' present'
    have rests := resting_of_quiet quiet present' placed
    exact ⟨placed, length, staged, Manager.Attends.tick (s := w.surroundings p') attends rests⟩

theorem Reachable.attends (reachable : w.Reachable) (act : w.act? a = some w')
    (present' : w'.participants[i]? = some p') (before : successes (w.notesOf i) = 0)
    (after : successes (w'.notesOf i) ≠ 0) (running : p'.manager.lifecycle = .running) :
    w'.Attends w'.now p'.manager.settings.leaseDuration.ceilMillis (sentIn (w'.notesOf i)) i p' := by
  have reachable' := reachable.act act
  obtain ⟨p, present, ⟨_, past⟩ | ⟨notes, deed, past⟩⟩ := deed_of_act? act present'
  · rw [past] at after
    exact absurd before after
  · have won : successes notes ≠ 0 := by
      rw [past, successes_append, before] at after
      omega
    obtain ⟨b, move⟩ := deed.move
    have staged := reachable.staged (List.mem_of_getElem? present)
    obtain ⟨aborted, worker⟩ := (move.shift staged).launched won
    refine ⟨(change_of_act? act).placed present present' (deed.placed won), rfl, staged.move move, ?_⟩
    refine ⟨?_, List.prefix_refl _, reachable'.delivers present', fun _ => .inr ⟨_, worker, ?_⟩⟩
    · simp [Manager.Early, running]
    · exact Worker.catchesUp_fresh (Nat.le_add_right _ _) aborted

/-- Everything that was sent up to the success of a start is taken by the worker, unless the manager is
    stopped: in the order in which it was sent, and within one lease duration for each release in it. -/
theorem Reachable.taken (reachable : w.Reachable) (act : w.act? a = some w')
    (present' : w'.participants[i]? = some p') (before : successes (w.notesOf i) = 0)
    (after : successes (w'.notesOf i) ≠ 0) (running : p'.manager.lifecycle = .running)
    {later : List Action} {w'' : World} (run : w'.run? later = some w'') {p'' : Participant}
    (present'' : w''.participants[i]? = some p'') (running'' : p''.manager.lifecycle = .running)
    (late : w'.now + p'.manager.settings.leaseDuration.ceilMillis * releases (sentIn (w'.notesOf i))
      < w''.now) : sentIn (w'.notesOf i) <+: appliedIn (w''.notesOf i) := by
  have step (v : World) (a : Action) (v' : World)
      (h : ∀ q, v.participants[i]? = some q → v.Attends w'.now
        p'.manager.settings.leaseDuration.ceilMillis (sentIn (w'.notesOf i)) i q)
      (_ : True) (change : v.Change a v') : ∀ q, v'.participants[i]? = some q → v'.Attends w'.now
        p'.manager.settings.leaseDuration.ceilMillis (sentIn (w'.notesOf i)) i q :=
    fun _ there => Attends.change h change there
  have attends := run?_preserves step (fun _ _ => trivial) run (fun q there => by
    obtain rfl := Option.some.inj (present'.symm.trans there)
    exact reachable.attends act present' before after running) p'' present''
  exact attends.attends.taken running'' late

end World

end Leasehold
