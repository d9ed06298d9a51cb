import Leasehold.Proofs.Deeds
import Leasehold.Proofs.Starting

/-! # From the first start to the end

What becomes of a manager that is started and stopped in any order, by any number of callers: at most one
keeps its queue, it runs once at most, and after its end worker and scheduler do nothing but finish the
turn that they are in the middle of. A start that fails may be tried again.
-/

namespace Leasehold.World

variable {w w' : World} {i : Nat} {p p' : Participant} {a : Action} {notes : List Note}

/-! ## The invariant along a run -/

/-- Every deed keeps the invariant. -/
theorem Deed.orderly {m : Manager} (deed : w.Deed w' i p m notes) {past : List Note}
    (orderly : p.manager.Orderly w.nextRequest past) (le : w.nextRequest ≤ w'.nextRequest) :
    m.Orderly w'.nextRequest (past ++ notes) := by
  obtain ⟨b, move⟩ := deed.move
  have staged := orderly.staged.move move
  cases deed with
  | create name =>
    obtain ⟨⟨registry, handles, eq⟩, aftermath⟩ := p.manager.createHandle_sent name
    refine (orderly.keep staged ?_ aftermath.successes ?_).mono le
    · rw [eq]
    · rw [eq]
      exact fun early => ⟨early, fun opened => ⟨opened, rfl⟩⟩
  | release id =>
    obtain ⟨⟨registry, handles, eq⟩, aftermath⟩ := p.manager.releaseHandle_sent id
    refine (orderly.keep staged ?_ aftermath.successes ?_).mono le
    · rw [eq]
    · rw [eq]
      exact fun early => ⟨early, fun opened => ⟨opened, rfl⟩⟩
  | stop =>
    refine (orderly.stage (Manager.staging_stop _) staged ?_).mono le
    rw [Manager.attempts_stop]
  | abandon =>
    have attempts : p.manager.abandon.attempts = p.manager.attempts :=
      Manager.attempts_dropIfUnused _
    refine (orderly.stage (Manager.staging_abandon _) staged ?_).mono le
    rw [attempts]
  | start counted =>
    rw [List.append_nil]
    exact orderly.beginStart counted staged
  | list =>
    rw [List.append_nil]
    exact (Manager.Orderly.mk staged orderly.distinct orderly.below orderly.early orderly.once).mono le
  | @step kind _ _ _ moving _ step =>
    cases kind with
    | worker =>
      obtain ⟨there, lifecycle, attempts, lost⟩ := Manager.stepWorker_eq step
      refine (orderly.settled staged attempts lost fun early => ?_).mono le
      rw [Manager.Early, lifecycle] at early
      simp [orderly.staged.worker_none early] at there
    | scheduler =>
      obtain ⟨there, lifecycle, attempts, lost⟩ := Manager.stepScheduler_eq step
      refine (orderly.settled staged attempts lost fun early => ?_).mono le
      rw [Manager.Early, lifecycle] at early
      simp [orderly.staged.scheduler_none early] at there
    | attempt id =>
      obtain ⟨a, present, _, trying⟩ := Manager.trying_of_stepAttempt step
      exact (orderly.trying present trying staged).mono le
    | listing id =>
      obtain ⟨staging, attempts, lifecycle⟩ := Manager.staging_of_stepListing step
      refine (orderly.stage staging staged ?_).mono le
      rw [attempts]
  | @reap kind aborted =>
    obtain ⟨lifecycle, attempts⟩ := p.manager.reap_eq kind
    have stopped := orderly.staged.stopped_of_aborted aborted
    refine (orderly.settled staged attempts (p.manager.idle_reap kind).2 fun early => ?_).mono le
    rw [Manager.Early, lifecycle, stopped] at early
    simp at early

/-- Somebody keeps the queue all through a start. -/
theorem Deed.kept {m : Manager} (deed : w.Deed w' i p m notes) {past : List Note} {limit : Nat}
    (orderly : p.manager.Orderly limit past) (safe : p.manager.Kept past) :
    m.Kept (past ++ notes) := by
  have still {m : Manager} (attempts : m.attempts = p.manager.attempts)
      (lifecycle : m.lifecycle = p.manager.lifecycle ∨ m.lifecycle = .stopped) (notes : List Note) :
      m.Kept (past ++ notes) := by
    refine safe.still (fun a member => attempts ▸ member) (fun starting => ?_) notes
    rcases lifecycle with same | stopped
    · exact same.symm.trans starting
    · cases stopped.symm.trans starting
  cases deed with
  | create name =>
    obtain ⟨registry, handles, queue, eq⟩ := p.manager.createHandle_eq name
    exact still (by rw [eq]) (.inl (by rw [eq])) _
  | release id =>
    obtain ⟨registry, handles, queue, eq⟩ := p.manager.releaseHandle_eq id
    exact still (by rw [eq]) (.inl (by rw [eq])) _
  | stop => exact still p.manager.attempts_stop (.inr p.manager.lifecycle_stop) _
  | abandon =>
    let alone : Manager := { p.manager with referenced := false }
    exact still alone.attempts_dropIfUnused alone.lifecycle_dropIfUnused _
  | start counted =>
    have more : ∀ a ∈ p.manager.attempts, a ∈ (p.manager.beginStart w.nextRequest).attempts :=
      fun a member => List.mem_append_left _ member
    exact safe.still more id _
  | list => exact still rfl (.inl rfl) _
  | @step kind _ _ _ moving _ step =>
    cases kind with
    | worker =>
      obtain ⟨_, lifecycle, attempts, _⟩ := Manager.stepWorker_eq step
      exact still attempts (.inl lifecycle) _
    | scheduler =>
      obtain ⟨_, lifecycle, attempts, _⟩ := Manager.stepScheduler_eq step
      exact still attempts (.inl lifecycle) _
    | attempt id =>
      obtain ⟨a, present, _, trying⟩ := Manager.trying_of_stepAttempt step
      exact orderly.keptBy safe present trying
    | listing id =>
      obtain ⟨_, attempts, lifecycle⟩ := Manager.staging_of_stepListing step
      exact still attempts lifecycle _
  | @reap kind aborted =>
    obtain ⟨lifecycle, attempts⟩ := p.manager.reap_eq kind
    exact still attempts (.inl lifecycle) _

theorem Begins.orderly {start : World} (begins : start.Begins)
    (present : start.participants[i]? = some p) (limit : Nat) :
    p.manager.Orderly limit (start.notesOf i) := by
  obtain ⟨owner, settings, eq⟩ := begins.manager_fresh (List.mem_of_getElem? present)
  have none : start.notesOf i = [] := by
    rw [notesOf, begins.journal_nil]
    rfl
  rw [eq, none]
  exact Manager.orderly_fresh owner settings limit

theorem Reachable.orderly (reachable : w.Reachable) (present : w.participants[i]? = some p) :
    p.manager.Orderly w.nextRequest (w.notesOf i) := by
  obtain ⟨start, actions, begins, run⟩ := reachable
  have step (w : World) (a : Action) (w' : World)
      (before : ∀ p, w.participants[i]? = some p → p.manager.Orderly w.nextRequest (w.notesOf i))
      (act : w.act? a = some w') : ∀ p', w'.participants[i]? = some p' →
        p'.manager.Orderly w'.nextRequest (w'.notesOf i) := by
    intro p' present'
    obtain ⟨p, present, ⟨same, past⟩ | ⟨notes, deed, past⟩⟩ := deed_of_act? act present'
    · rw [same, past]
      exact (before p present).mono (turn_of_act? act).1
    · rw [past]
      exact deed.orderly (before p present) (turn_of_act? act).1
  exact run?_induction step run (fun p present => begins.orderly present _) p present

theorem Reachable.kept (reachable : w.Reachable) (present : w.participants[i]? = some p) :
    p.manager.Kept (w.notesOf i) := by
  obtain ⟨start, actions, begins, run⟩ := reachable
  have step (w : World) (a : Action) (w' : World)
      (before : w.Reachable ∧ ∀ p, w.participants[i]? = some p → p.manager.Kept (w.notesOf i))
      (act : w.act? a = some w') : w'.Reachable ∧ ∀ p', w'.participants[i]? = some p' →
        p'.manager.Kept (w'.notesOf i) := by
    refine ⟨before.1.act act, fun p' present' => ?_⟩
    obtain ⟨p, present, ⟨same, past⟩ | ⟨notes, deed, past⟩⟩ := deed_of_act? act present'
    · rw [same, past]
      exact before.2 p present
    · rw [past]
      exact deed.kept (before.1.orderly present) (before.2 p present)
  refine (run?_induction step run ⟨⟨start, [], begins, rfl⟩, fun p present => ?_⟩).2 p present
  obtain ⟨owner, settings, eq⟩ := begins.manager_fresh (List.mem_of_getElem? present)
  rw [eq]
  exact nofun

theorem Reachable.queueOpen (reachable : w.Reachable) (present : w.participants[i]? = some p)
    (active : p.manager.lifecycle ≠ .stopped) (smooth : ¬ Crashed (w.notesOf i)) :
    p.manager.queueOpen = true := by
  rw [Manager.queueOpen_iff]
  cases stage : p.manager.lifecycle with
  | idle => exact .inl rfl
  | starting => exact .inr (.inl ((reachable.kept present stage).resolve_right smooth))
  | running => exact .inr (.inr ((reachable.orderly present).staged.running stage).1)
  | stopped => exact absurd stage active

/-! ## Who appears -/

def has (w : World) (there : Manager → Bool) (i : Nat) : Bool :=
  (w.participants[i]?).any fun p => there p.manager

/-- How often somebody appears at a manager in the course of a run. -/
def arrivals (there : Manager → Bool) (i : Nat) : World → List Action → Nat
  | _, [] => 0
  | w, a :: actions =>
    match w.act? a with
    | none => 0
    | some next =>
      (if !w.has there i && next.has there i then 1 else 0) + next.arrivals there i actions

/-- Nobody appears without a start that succeeds. -/
theorem arrivals_le {there : Manager → Bool}
    (arrives : ∀ m m' : Manager, there m = false → there m' = true →
      m.worker = none ∧ m'.worker.isSome = true ∨ m.scheduler = none ∧ m'.scheduler.isSome = true)
    {actions : List Action} (reachable : w.Reachable) (run : w.run? actions = some w')
    (present : w.participants[i]? = some p) :
    w.arrivals there i actions + successes (w.notesOf i) ≤ successes (w'.notesOf i) := by
  induction actions generalizing w p with
  | nil =>
    cases run
    simp [arrivals]
  | cons a actions ih =>
    obtain ⟨next, act, run⟩ := Option.bind_eq_some_iff.mp run
    obtain ⟨q, there'⟩ := present_of_run (run?_singleton act) present
    have rest := ih (reachable.act act) run there'
    have first : (if !w.has there i && next.has there i then 1 else 0) + successes (w.notesOf i)
        ≤ successes (next.notesOf i) := by
      obtain ⟨p₀, present₀, still⟩ := (change_of_act? act).past_cases there'
      obtain rfl : p = p₀ := Option.some.inj (present.symm.trans present₀)
      have now : w.has there i = there p.manager := by simp [has, present]
      have soon : next.has there i = there q.manager := by simp [has, there']
      rw [now, soon]
      rcases still with ⟨same, past⟩ | ⟨b, notes, move, past⟩
      · simp [same, past]
      · rw [past, successes_append]
        split
        · rename_i appears
          simp only [Bool.and_eq_true, Bool.not_eq_true'] at appears
          have shift := move.shift (reachable.orderly present).staged
          have won := shift.successes_of_arrival (arrives _ _ appears.1 appears.2)
          omega
        · omega
    simp only [arrivals, act]
    omega

/-! ## After the end -/

/-- A manager that has been stopped. Its worker and its scheduler may be in the middle of a turn. -/
structure Ending (w : World) (i : Nat) (p : Participant) : Prop where
  present : w.participants[i]? = some p
  staged : p.manager.Staged
  stopped : p.manager.lifecycle = .stopped

/-- Whoever takes a step after the end, it is not worker or scheduler, or one of them that is in the middle
    of a turn. -/
theorem Ending.deed_cases (h : w.Ending i p) {m : Manager} (deed : w.Deed w' i p m notes) :
    Aftermath notes
      ∨ ∃ kind, ⟨i, kind⟩ ∈ w.moving ∧ successes notes = 0
        ∧ ∀ other, other = .worker ∨ other = .scheduler → other ≠ kind →
          ∀ n ∈ notes, n.isBy other = false := by
  cases deed with
  | create name => exact .inl (p.manager.createHandle_sent name).2
  | release id => exact .inl (p.manager.releaseHandle_sent id).2
  | stop => exact .inl ((Manager.staging_stop _).aftermath h.stopped)
  | abandon => exact .inl ((Manager.staging_abandon _).aftermath h.stopped)
  | start | list => exact .inl fun n member => by cases member
  | @step kind _ _ _ moving _ step =>
    cases kind with
    | worker =>
      refine .inr ⟨.worker, moving, (Manager.stepWorker_eq step).2.2.2, fun other background ne => ?_⟩
      obtain rfl := background.resolve_left ne
      exact Manager.not_by_scheduler_of_stepWorker step
    | scheduler =>
      refine .inr ⟨.scheduler, moving, (Manager.stepScheduler_eq step).2.2.2, fun other background ne => ?_⟩
      obtain rfl := background.resolve_right ne
      exact Manager.not_by_worker_of_stepScheduler step
    | attempt id =>
      obtain ⟨a, there, _, trying⟩ := Manager.trying_of_stepAttempt step
      exact .inl ((trying.staging there).aftermath h.stopped)
    | listing id =>
      exact .inl ((Manager.staging_of_stepListing step).1.aftermath h.stopped)
  | @reap kind aborted =>
    obtain ⟨idle, lost⟩ := p.manager.idle_reap kind
    exact .inl (aftermath_of_idle idle lost)

theorem Ending.aborted (h : w.Ending i p) {kind : TaskKind} (member : kind ∈ p.manager.tasks)
    (background : kind = .worker ∨ kind = .scheduler) : p.manager.isAborted kind = true := by
  obtain ⟨_, staged, stopped⟩ := h
  rcases background with rfl | rfl
  · cases there : p.manager.worker with
    | none => simp [Manager.tasks, there] at member
    | some worker =>
      rcases staged.worker worker there with ⟨running, _⟩ | ⟨_, aborted⟩
      · cases stopped.symm.trans running
      · simp [Manager.isAborted, there, aborted]
  · cases there : p.manager.scheduler with
    | none => simp [Manager.tasks, there] at member
    | some scheduler =>
      rcases staged.scheduler scheduler there with ⟨running, _⟩ | ⟨_, aborted⟩
      · cases stopped.symm.trans running
      · simp [Manager.isAborted, there, aborted]

theorem Ending.resting (h : w.Ending i p) (act : w.act? a = some w') {kind : TaskKind}
    (background : kind = .worker ∨ kind = .scheduler) (rests : ⟨i, kind⟩ ∉ w.moving) :
    ⟨i, kind⟩ ∉ w'.moving := by
  intro moving
  rcases (turn_of_act? act).2 _ moving with old | ⟨member, _, alive⟩
  · exact rests old
  · have aborted := h.aborted ((mem_tasks_iff h.present).mp member) background
    simp [isAborted, h.present, aborted] at alive

/-- What happens to a manager after its end: no start succeeds, and of worker and scheduler, one that rests
    neither moves nor writes anything. -/
def Winds (w w' : World) (i : Nat) (news : List Note) : Prop :=
  successes news = 0 ∧ ∀ kind, kind = .worker ∨ kind = .scheduler → ⟨i, kind⟩ ∉ w.moving →
    ⟨i, kind⟩ ∉ w'.moving ∧ ∀ n ∈ news, n.isBy kind = false

theorem Ending.act (h : w.Ending i p) (act : w.act? a = some w') :
    ∃ p', w'.Ending i p' ∧ ∃ news, w'.notesOf i = w.notesOf i ++ news ∧ w.Winds w' i news := by
  obtain ⟨p', present'⟩ := present_of_run (run?_singleton act) h.present
  obtain ⟨p₀, present₀, follows⟩ := deed_of_act? act present'
  obtain rfl : p = p₀ := Option.some.inj (h.present.symm.trans present₀)
  rcases follows with ⟨same, past⟩ | ⟨notes, deed, past⟩
  · refine ⟨p', ⟨present', same ▸ h.staged, same ▸ h.stopped⟩, [], ?_, rfl, ?_⟩
    · rw [past, List.append_nil]
    · exact fun kind background rests => ⟨h.resting act background rests, List.forall_mem_nil _⟩
  · obtain ⟨b, move⟩ := deed.move
    refine ⟨p', ⟨present', h.staged.move move, move.stopped h.stopped⟩, notes, past, ?_⟩
    rcases h.deed_cases deed with aftermath | ⟨mover, moving, lost, silent⟩
    · refine ⟨aftermath.successes, fun kind background rests => ⟨h.resting act background rests, ?_⟩⟩
      intro n member
      have neither := n.isTask_eq_false_iff.mp (aftermath n member).1
      rcases background with rfl | rfl
      · exact neither.1
      · exact neither.2
    · refine ⟨lost, fun kind background rests => ⟨h.resting act background rests, ?_⟩⟩
      exact silent kind background fun eq => rests (eq ▸ moving)

theorem Ending.run (h : w.Ending i p) {actions : List Action} (run : w.run? actions = some w') :
    ∃ p', w'.Ending i p' ∧ ∃ news, w'.notesOf i = w.notesOf i ++ news ∧ w.Winds w' i news := by
  have step (v : World) (a : Action) (v' : World)
      (before : ∃ q, v.Ending i q ∧ ∃ news, v.notesOf i = w.notesOf i ++ news ∧ w.Winds v i news)
      (act : v.act? a = some v') :
      ∃ q, v'.Ending i q ∧ ∃ news, v'.notesOf i = w.notesOf i ++ news ∧ w.Winds v' i news := by
    obtain ⟨q, stopped, news, past, lost, silent⟩ := before
    obtain ⟨q', stopped', more, past', lost', silent'⟩ := stopped.act act
    refine ⟨q', stopped', news ++ more, ?_, ?_, fun kind background rests => ?_⟩
    · rw [past', past, List.append_assoc]
    · rw [successes_append, lost, lost']
    · obtain ⟨still, quiet⟩ := silent kind background rests
      obtain ⟨still', quiet'⟩ := silent' kind background still
      exact ⟨still', List.forall_mem_append.mpr ⟨quiet, quiet'⟩⟩
  refine run?_induction step run ⟨p, h, [], ?_, rfl, fun kind _ rests => ⟨rests, List.forall_mem_nil _⟩⟩
  rw [List.append_nil]

theorem ending_stop (present : w.participants[i]? = some p) (staged : p.manager.Staged) :
    (w.stop i).Ending i { p with manager := p.manager.stop.1 } := by
  refine ⟨?_, staged.stop, p.manager.lifecycle_stop⟩
  simp [World.stop, changeManager, present, note, setManager]

theorem moving_stop (w : World) (i : Nat) : (w.stop i).moving = w.moving :=
  (w.sameTurn_changeManager i _).2

/-- A manager that has been stopped, neither its worker nor its scheduler being on the move. -/
structure Halted (w : World) (i : Nat) (p : Participant) : Prop extends w.Ending i p where
  worker : ⟨i, .worker⟩ ∉ w.moving
  scheduler : ⟨i, .scheduler⟩ ∉ w.moving

theorem Halted.run (halted : w.Halted i p) {actions : List Action}
    (run : w.run? actions = some w') :
    ∃ p', w'.Halted i p' ∧ ∃ news, w'.notesOf i = w.notesOf i ++ news ∧ Aftermath news := by
  obtain ⟨p', stopped, news, past, lost, winds⟩ := halted.toEnding.run run
  obtain ⟨worker, first⟩ := winds .worker (.inl rfl) halted.worker
  obtain ⟨scheduler, last⟩ := winds .scheduler (.inr rfl) halted.scheduler
  refine ⟨p', ⟨stopped, worker, scheduler⟩, news, past, fun n member => ⟨?_, ?_⟩⟩
  · exact n.isTask_eq_false_iff.mpr ⟨first n member, last n member⟩
  · simpa using List.countP_eq_zero.mp lost n member

theorem halted_stop (present : w.participants[i]? = some p) (staged : p.manager.Staged)
    (worker : ⟨i, .worker⟩ ∉ w.moving) (scheduler : ⟨i, .scheduler⟩ ∉ w.moving) :
    (w.stop i).Halted i { p with manager := p.manager.stop.1 } :=
  ⟨ending_stop present staged, by rwa [moving_stop], by rwa [moving_stop]⟩

/-! ## Starting again -/

/-- A task of a participant is on the move. -/
structure Amid (w : World) (t : Task) (p : Participant) (b : Backend) : Prop where
  moving : t ∈ w.moving
  present : w.participants[t.participant]? = some p
  placed : w.stores[p.store]? = some b

theorem Amid.proceed {t : Task} {b b' : Backend} (amid : w.Amid t p b) {m : Manager}
    (step : p.manager.stepTask (w.surroundings p) b t.kind = some (m, b', notes)) :
    ∃ next, w.act? (.proceed t) = some next ∧ next.Amid t { p with manager := m } b'
      ∧ next.now = w.now ∧ next.notesOf t.participant = w.notesOf t.participant ++ notes := by
  obtain ⟨moving, present, placed⟩ := amid
  have stepped : w.stepTask? t = some (((w.setManager t.participant m).setStore p.store b').note
      (some t.participant) notes, notes) := by
    simp [stepTask?, present, placed, step]
  have proceeded : w.act? (.proceed t) = some (((w.setManager t.participant m).setStore p.store b').note
      (some t.participant) notes) := by
    simp [act?, World.proceed, moving, stepped]
  refine ⟨_, proceeded, ⟨moving, ?_, ?_⟩, rfl, ?_⟩
  · simp [note, setStore, setManager, present]
  · have inside := (List.getElem?_eq_some_iff.mp placed).1
    simp [note, setStore, setManager, inside]
  · rw [notesOf_of_lines rfl, if_pos rfl]
    rfl

theorem Begins.moving_nil {start : World} (begins : start.Begins) : start.moving = [] := by
  induction begins with
  | initial epoch stores => rfl
  | join begins owner settings store clock ih =>
    unfold World.join
    split <;> exact ih

theorem Reachable.next_rests (reachable : w.Reachable) (i : Nat) :
    ⟨i, .attempt w.nextRequest⟩ ∉ w.moving := by
  obtain ⟨start, actions, begins, run⟩ := reachable
  have step (w : World) (a : Action) (w' : World)
      (before : w.Reachable ∧ ∀ id, ⟨i, .attempt id⟩ ∈ w.moving → id < w.nextRequest)
      (act : w.act? a = some w') :
      w'.Reachable ∧ ∀ id, ⟨i, .attempt id⟩ ∈ w'.moving → id < w'.nextRequest := by
    obtain ⟨reachable, below⟩ := before
    obtain ⟨counted, setsOff⟩ := turn_of_act? act
    refine ⟨reachable.act act, fun id moving => Nat.lt_of_lt_of_le ?_ counted⟩
    rcases setsOff _ moving with old | ⟨member, _⟩
    · exact below id old
    · obtain ⟨p, present⟩ := present_of_mem_tasks member
      have there : ∃ a ∈ p.manager.attempts, a.id = id := by
        simpa [Manager.tasks] using (mem_tasks_iff present).mp member
      obtain ⟨a, inside, rfl⟩ := there
      exact (reachable.orderly present).below a inside
  have none : ∀ id, ⟨i, .attempt id⟩ ∈ start.moving → id < start.nextRequest := by
    simp [begins.moving_nil]
  obtain ⟨_, below⟩ := run?_induction step run ⟨⟨start, [], begins, rfl⟩, none⟩
  exact fun moving => Nat.lt_irrefl _ (below _ moving)

/-- An attempt to start is picked as soon as it has begun, on a clear link and with a clock that is
    right. -/
theorem amid_of_start (present : w.participants[i]? = some p)
    (rests : ⟨i, .attempt w.nextRequest⟩ ∉ w.moving) {b : Backend}
    (placed : w.stores[p.store]? = some b) :
    ∃ actions next, w.run? actions = some next
      ∧ next.Amid ⟨i, .attempt w.nextRequest⟩
        { p with link := .clear, clock := {}, manager := p.manager.beginStart w.nextRequest } b
      ∧ next.notesOf i = w.notesOf i := by
  have present₀ : ((w.setLink i .clear).setClock i {}).participants[i]?
      = some { p with link := .clear, clock := {} } := by
    simp [World.setLink, World.setClock, present]
  have started : (((w.setLink i .clear).setClock i {}).start i).2
      = ({ (w.setLink i .clear).setClock i {} with nextRequest := w.nextRequest + 1 }.setManager i
          (p.manager.beginStart w.nextRequest)).note (some i) [] := by
    simp only [start, changeManager]
    rw [present₀]
    rfl
  generalize eq : (((w.setLink i .clear).setClock i {}).start i).2 = w₁ at started
  have there : w₁.participants[i]? = some
      { p with link := .clear, clock := {}, manager := p.manager.beginStart w.nextRequest } := by
    rw [started]
    simp only [note, setManager, List.getElem?_modify, present₀]
    simp
  have waiting : TaskKind.attempt w.nextRequest ∈ (p.manager.beginStart w.nextRequest).tasks := by
    simp [Manager.tasks, Manager.beginStart]
  have resting : ⟨i, .attempt w.nextRequest⟩ ∉ w₁.moving := by
    rw [started]
    exact rests
  have able : ⟨i, .attempt w.nextRequest⟩ ∈ w₁.tasks := (mem_tasks_iff there).mpr waiting
  have picked : w₁.act? (.pick ⟨i, .attempt w.nextRequest⟩)
      = some { w₁ with moving := ⟨i, .attempt w.nextRequest⟩ :: w₁.moving } := by
    simp [act?, resting, able, pick, isAborted, there, Manager.isAborted]
  refine ⟨[.setLink i .clear, .setClock i {}, .start i, .pick ⟨i, .attempt w.nextRequest⟩],
    { w₁ with moving := ⟨i, .attempt w.nextRequest⟩ :: w₁.moving }, ?_, ⟨List.mem_cons_self, there, ?_⟩,
    ?_⟩
  · simp only [run?, act?, Option.bind_some, eq] at picked ⊢
    rw [picked]
    rfl
  · rw [started]
    exact placed
  · rw [started]
    rfl

theorem surroundings_clear (w : World) {p : Participant} (link : p.link = .clear)
    (clock : p.clock = {}) : (w.surroundings p).link = .clear
      ∧ (w.surroundings p).clock = Link.clear.storeClock (w.surroundings p).trueTime := by
  constructor
  · simp only [surroundings, link]
    split <;> rfl
  · have still : Reading.clamp w.trueTime = w.trueTime :=
      Reading.clamp_eq_self (Reading.clamp_inRange _)
    simp only [surroundings, clock, ClockSetting.reading, Link.storeClock, Link.clear,
      Option.getD_none, still]

/-- An attempt on a clear link, with a clock that is right, ends with a manager that runs. -/
theorem Amid.succeeds {id : Nat} {b : Backend} (amid : w.Amid ⟨i, .attempt id⟩ p b)
    (link : p.link = .clear) (clock : p.clock = {}) (valid : p.manager.settings.validate = .ok ())
    (idle : p.manager.lifecycle = .idle) (referenced : p.manager.referenced = true)
    (found : (p.manager.attempts.find? fun k => k.id = id) = some ⟨id, .fresh⟩) :
    ∃ actions w' m notes, w.run? actions = some w' ∧ w'.participants[i]? = some { p with manager := m }
      ∧ w'.notesOf i = w.notesOf i ++ notes ∧ successes notes = 1 ∧ m.lifecycle = .running
      ∧ m.worker = some .fresh ∧ m.queue = p.manager.queue := by
  obtain ⟨clear, near⟩ := w.surroundings_clear link clock
  by_cases enabled : p.manager.settings.enabled = true
  · -- three steps: the queue is taken, the clocks are compared, the table is created
    have first := Manager.stepAttempt_of_fresh (s := w.surroundings p) b valid idle enabled
      found
    rw [clear] at first
    obtain ⟨w₁, act₁, amid₁, now₁, past₁⟩ := amid.proceed first
    have found₁ := Manager.find?_setStage (m := { p.manager with lifecycle := .starting }) found
      (.comparing (Call.place .clear (w.surroundings p).now .referenceTime))
    obtain ⟨clear₁, near₁⟩ := w₁.surroundings_clear (p := { p with manager := _ }) link clock
    obtain ⟨notes₂, second, silent₂⟩ :=
      Manager.stepAttempt_of_comparing b (Nat.le_of_eq now₁.symm) found₁ near₁
    rw [clear₁] at second
    obtain ⟨w₂, act₂, amid₂, now₂, past₂⟩ := amid₁.proceed second
    have found₂ := Manager.find?_setStage found₁
      (.preparing (Call.place .clear w₁.now .ensureSchema))
    obtain ⟨b₃, notes₃, third, won⟩ := Manager.stepAttempt_of_preparing b
      (s := w₂.surroundings { p with manager := _ }) (Nat.le_of_eq now₂.symm) found₂ rfl
    obtain ⟨w₃, act₃, amid₃, _, past₃⟩ := amid₂.proceed third
    rw [Manager.endAttempt_launched (by exact referenced)] at amid₃
    refine ⟨List.replicate 3 (.proceed ⟨i, .attempt id⟩), w₃, _,
      [.began (.attempt id) .referenceTime] ++ (notes₂ ++ notes₃), ?_, amid₃.present, ?_, ?_, rfl, rfl, rfl⟩
    · simp [run?, act₁, act₂, act₃]
    · rw [past₃, past₂, past₁, List.append_assoc, List.append_assoc]
    · rw [successes_append, successes_append, silent₂, won]
      rfl
  · obtain ⟨notes, step, won⟩ := Manager.stepAttempt_of_disabled (s := w.surroundings p) b
      valid idle (by simpa using enabled) found
    obtain ⟨w', act, amid', _, past⟩ := amid.proceed step
    rw [Manager.endAttempt_launched referenced] at amid'
    exact ⟨[.proceed ⟨i, .attempt id⟩], w', _, notes, run?_singleton act, amid'.present, past, won, rfl,
      rfl, rfl⟩

/-- An idle manager can be started: an attempt on a clear link and with a clock that is right succeeds,
    and the worker begins with all that has been queued. -/
theorem Reachable.restart (reachable : w.Reachable) (present : w.participants[i]? = some p)
    (valid : p.manager.settings.validate = .ok ()) (idle : p.manager.lifecycle = .idle)
    (referenced : p.manager.referenced = true) (placed : p.store < w.stores.length) :
    ∃ actions w' p', w.run? actions = some w' ∧ w'.participants[i]? = some p'
      ∧ successes (w'.notesOf i) = 1 ∧ p'.manager.lifecycle = .running
      ∧ p'.manager.worker = some .fresh ∧ p'.manager.queue = p.manager.queue := by
  have orderly := reachable.orderly present
  have none := (orderly.early (.inl idle)).1
  obtain ⟨first, w₁, run₁, amid₁, past₁⟩ := amid_of_start present (reachable.next_rests i)
    (List.getElem?_eq_getElem placed)
  have found : ((p.manager.beginStart w.nextRequest).attempts.find? fun k => k.id = w.nextRequest)
      = some ⟨w.nextRequest, .fresh⟩ := by
    have new : (p.manager.attempts.find? fun k => k.id = w.nextRequest) = .none := by
      apply List.find?_eq_none.mpr
      intro k member
      have less := orderly.below k member
      simp only [decide_eq_true_eq]
      omega
    simp [Manager.beginStart, List.find?_append, new]
  obtain ⟨actions, w', m, notes, run, present', past, won, running, worker, queue⟩ :=
    amid₁.succeeds rfl rfl valid idle referenced found
  have whole := w.run?_append first actions
  rw [run₁, Option.bind_some, run] at whole
  refine ⟨_, w', _, whole, present', ?_, running, worker, queue⟩
  rw [past, past₁, successes_append, none, won]

/-! ## The life of a manager -/

/-- The life of a manager, whoever starts and stops it, and whenever. At most one keeps the receiving end
    of its queue. At most one start succeeds, and worker and scheduler appear once at most. A start that
    begins while another is pending, or after one has succeeded, is turned down; only the attempt itself
    goes. Once the manager has been stopped, no start succeeds, and neither worker nor scheduler begins
    another turn: as soon as the one that it is in is over, it does nothing any more, and one that rests
    when the manager is stopped does nothing at all. A start that answers with an error leaves the manager
    idle, with everything in the queue that was ever sent, and an idle manager can be started. -/
theorem start_stop_lifecycle {start : World} {actions : List Action} (begins : start.Begins)
    (run : start.run? actions = some w) (present : w.participants[i]? = some p)
    (valid : p.manager.settings.validate = .ok ()) :
    (p.manager.receivers ≤ 1 ∧ (p.manager.queueOpen = true ↔ p.manager.receivers = 1))
      ∧ (successes (w.notesOf i) ≤ 1
        ∧ start.arrivals (fun m => m.worker.isSome) i actions ≤ 1
        ∧ start.arrivals (fun m => m.scheduler.isSome) i actions ≤ 1)
      ∧ (∀ a ∈ p.manager.attempts, a.keepsQueue = false → p.manager.lifecycle ≠ .stopped →
          (∃ k ∈ p.manager.attempts, k.keepsQueue = true) ∨ 0 < successes (w.notesOf i) →
            ∀ s store, p.manager.stepAttempt s store a.id
              = some ((p.manager.without a.id).dropIfUnused, store,
                [.startEnded a.id (.error .alreadyStarted)]))
      ∧ (∀ before v, (w.stop i).run? before = some v → ∀ later w', v.run? later = some w' →
          ∃ news, w'.notesOf i = v.notesOf i ++ news ∧ (∀ n ∈ news, n.isSuccess = false)
            ∧ ∀ kind, kind = .worker ∨ kind = .scheduler → ⟨i, kind⟩ ∉ v.moving →
              ⟨i, kind⟩ ∉ w'.moving ∧ ∀ n ∈ news, n.isBy kind = false)
      ∧ (∀ a ∈ p.manager.attempts, a.keepsQueue = true → p.manager.lifecycle ≠ .stopped →
          ∀ s store m' store' notes e, p.manager.stepAttempt s store a.id = some (m', store', notes) →
            .startEnded a.id (.error e) ∈ notes →
              m' = (({ p.manager with lifecycle := .idle } : Manager).without a.id).dropIfUnused
                ∧ p.manager.queue = sentIn (w.notesOf i)
                ∧ (p.manager.referenced = true →
                  m'.lifecycle = .idle ∧ m'.queue = sentIn (w.notesOf i)))
      ∧ (p.manager.lifecycle = .idle → p.manager.referenced = true → p.store < w.stores.length →
          ∃ later w' p', w.run? later = some w' ∧ w'.participants[i]? = some p'
            ∧ successes (w'.notesOf i) = 1 ∧ p'.manager.lifecycle = .running
            ∧ p'.manager.worker = some .fresh ∧ p'.manager.queue = p.manager.queue) := by
  have reachable : w.Reachable := ⟨start, actions, begins, run⟩
  have orderly := reachable.orderly present
  have few := orderly.receivers_le
  have once {there : Manager → Bool}
      (arrives : ∀ m m' : Manager, there m = false → there m' = true →
        m.worker = none ∧ m'.worker.isSome = true
          ∨ m.scheduler = none ∧ m'.scheduler.isSome = true) :
      start.arrivals there i actions ≤ 1 := by
    have inside := (List.getElem?_eq_some_iff.mp present).1
    rw [length_of_run run] at inside
    have bound := arrivals_le arrives ⟨start, [], begins, rfl⟩ run (List.getElem?_eq_getElem inside)
    have single := orderly.once
    omega
  refine ⟨⟨few, ?_⟩, ⟨orderly.once, once ?_, once ?_⟩, ?_, ?_, ?_, ?_⟩
  · rw [Manager.queueOpen_iff_receivers]
    omega
  · intro m m' before after
    exact .inl ⟨by simpa using before, after⟩
  · intro m m' before after
    exact .inr ⟨by simpa using before, after⟩
  · intro a member early active taken s store
    exact orderly.refused valid member early active taken
  · intro before v first later w' last
    obtain ⟨q, stopped, _⟩ := (ending_stop present orderly.staged).run first
    obtain ⟨_, _, news, past, lost, winds⟩ := stopped.run last
    refine ⟨news, past, fun n member => ?_, winds⟩
    simpa using List.countP_eq_zero.mp lost n member
  · intro a member kept active s store m' store' notes e step ended
    obtain ⟨eq, queue⟩ := orderly.failed member kept active step ended
    refine ⟨eq, queue, fun referenced => ?_⟩
    rw [Manager.dropIfUnused_of_referenced (by exact referenced)] at eq
    rw [eq]
    exact ⟨rfl, queue⟩
  · intro idle referenced placed
    exact reachable.restart present valid idle referenced placed

/-- A run in which two starts are under way: one waits for a table that the store refuses to create, while
    a handle is created; the other has not begun. -/
def pendingStarts : List Action :=
  [.setLink 0 { failing := [.ensureSchema] }, .start 0, .start 0] ++ turn 0 (.attempt 0) 2
    ++ [.create 0 "x"]

theorem start_stop_lifecycle_pendingStarts : ∃ (w : World) (p : Participant),
    ((World.initial 0 [.freshMemory]).join "a" ⟨.ofMillis 8, true⟩ 0 {}).run? pendingStarts = some w
      ∧ w.participants[0]? = some p ∧ p.manager.receivers = 1
      ∧ (∀ s store, p.manager.stepAttempt s store 1 = some ((p.manager.without 1).dropIfUnused, store,
          [.startEnded 1 (.error .alreadyStarted)]))
      ∧ (∃ m' store' notes, p.manager.stepAttempt default .freshMemory 0 = some (m', store', notes)
          ∧ m'.lifecycle = .idle ∧ m'.queue = [.register "x" 0, .maintain none])
      ∧ ∀ later w', (w.stop 0).run? later = some w' →
          ∃ news, w'.notesOf 0 = (w.stop 0).notesOf 0 ++ news
            ∧ ∀ n ∈ news, n.isBy .worker = false ∧ n.isSuccess = false := by
  have run : ((World.initial 0 [.freshMemory]).join "a" ⟨.ofMillis 8, true⟩ 0 {}).run? pendingStarts
      = some _ := rfl
  obtain ⟨⟨few, opened⟩, _, refused, stopped, failed, _⟩ := start_stop_lifecycle
    (.join (.initial 0 [.freshMemory]) "a" ⟨.ofMillis 8, true⟩ 0 {}) run (i := 0) rfl rfl
  refine ⟨_, _, run, rfl, opened.mp rfl, ?_, ⟨_, _, _, rfl, ?_⟩, ?_⟩
  · exact refused ⟨1, .fresh⟩ (List.mem_of_getElem? (i := 1) rfl) rfl (by decide)
      (.inl ⟨_, List.mem_cons_self, rfl⟩)
  · exact (failed _ List.mem_cons_self rfl (by decide) default .freshMemory _ _ _ _ rfl
      (List.mem_of_getElem? (i := 1) rfl)).2.2 rfl
  · intro later w' run'
    obtain ⟨news, past, lost, winds⟩ := stopped [] _ rfl later w' run'
    obtain ⟨_, silent⟩ := winds .worker (.inl rfl) (by decide)
    exact ⟨news, past, fun n member => ⟨silent n member, lost n member⟩⟩

/-- A worker that has been picked when its manager is stopped, with a release to apply. -/
def stoppedAmid : List Action :=
  [.start 0] ++ turn 0 (.attempt 0) 4 ++ [.create 0 "x"] ++ turn 0 .worker 8 ++ [.release 0 0]
    ++ turn 0 .worker 0 ++ [.stop 0]

/-- A start crashes on a store's clock that is out of reach; the next one finds a right clock. -/
def crashedStart : List Action :=
  [.setLink 0 { storeTime := some (-9223372036854775808) }, .start 0] ++ turn 0 (.attempt 0) 3
    ++ [.setLink 0 .clear, .start 0] ++ turn 0 (.attempt 1) 1

/-- A turn outlives the stop, and no start comes after a crash. -/
theorem turn_outlives_stop :
    (∃ w w', ((World.initial 0 [.freshMemory]).join "a" ⟨.ofMillis 8, true⟩ 0 {}).run? stoppedAmid = some w
        ∧ w.run? [.proceed ⟨0, .worker⟩, .proceed ⟨0, .worker⟩] = some w'
        ∧ w'.notesOf 0 = w.notesOf 0
          ++ [.applied (.release "x" 0), .event "x" 0 false, .began .worker (.deleteOwned "x" "a")])
      ∧ ∃ w p, ((World.initial 0 [.freshMemory]).join "a" ⟨.ofMillis 8, true⟩ 0 {}).run? crashedStart = some w
        ∧ w.participants[0]? = some p ∧ p.manager.lifecycle = .starting ∧ p.manager.attempts = []
        ∧ .startEnded 1 (.error .alreadyStarted) ∈ w.notesOf 0 := by
  refine ⟨⟨_, _, rfl, rfl, rfl⟩, _, _, rfl, rfl, rfl, rfl, ?_⟩
  exact List.mem_of_getElem? (i := 4) rfl

end Leasehold.World
