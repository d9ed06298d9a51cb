import Leasehold.Proofs.Afterlife

/-! # Handles that are asked for after the end

A manager that has been stopped refuses new handles from the moment on at which nobody keeps the receiving
end of its queue. An idle manager closes its queue at once; the worker keeps it until the runtime takes
the worker away, which takes no time; a start that waits for the store keeps it until it is over. A handle
that is handed out in between is never acquired, unless worker or scheduler was in the middle of a turn.
-/

namespace Leasehold

namespace Manager

variable {m m' before : Manager} {s : Surroundings} {store b : Backend} {notes : List Note}

/-! ## What can keep the queue of a stopped manager -/

/-- An attempt that keeps the queue of a stopped manager has kept it before. -/
theorem Move.keepers (move : m.Move s store m' b notes) (stopped : m.lifecycle = .stopped) {a : Attempt}
    (member : a ∈ m'.attempts) (keeps : a.keepsQueue = true) :
    ∃ k ∈ m.attempts, k.keepsQueue = true ∧ k.id = a.id := by
  have same (attempts : m'.attempts = m.attempts) : ∃ k ∈ m.attempts, k.keepsQueue = true ∧ k.id = a.id :=
    ⟨a, attempts ▸ member, keeps, rfl⟩
  have fewer {id : Nat} (attempts : m'.attempts = m.attempts.filter fun k => k.id ≠ id) :
      ∃ k ∈ m.attempts, k.keepsQueue = true ∧ k.id = a.id :=
    ⟨a, (List.mem_filter.mp (attempts ▸ member)).1, keeps, rfl⟩
  cases move with
  | create name =>
    obtain ⟨registry, handles, queue, eq⟩ := m.createHandle_eq name
    exact same (by rw [eq])
  | release id =>
    obtain ⟨registry, handles, queue, eq⟩ := m.releaseHandle_eq id
    exact same (by rw [eq])
  | stop => exact same m.attempts_stop
  | abandon => exact same (attempts_dropIfUnused _)
  | beginStart id =>
    rcases List.mem_append.mp member with old | new
    · exact ⟨a, old, keeps, rfl⟩
    · simp [List.mem_singleton.mp new, Attempt.keepsQueue] at keeps
  | worker present move => exact same (by rw [publishAll_eq])
  | beginListing | request | retire | pace | askListing | reapScheduler => exact same rfl
  | refuse id e => exact fewer (m.attempts_dropAttempt id)
  | enter idle enabled => cases stopped.symm.trans idle
  | enterAlone idle disabled => cases stopped.symm.trans idle
  | @fail k _ _ present called due e fields _ => exact fewer (m.attempts_failStart k.id e)
  | @crash k _ _ _ present comparing due answered overflows => exact fewer (m.attempts_dropAttempt k.id)
  | @compare k _ _ _ present comparing due answered near =>
    rcases mem_setStage member with ⟨number, _⟩ | ⟨_, old⟩
    · exact ⟨k, present, keepsQueue_of_stage (by simp [comparing]), number.symm⟩
    · exact ⟨a, old, keeps, rfl⟩
  | @finish k _ _ present preparing due answered => exact fewer (m.attempts_finishStart store.label k.id)
  | endListing present called due => exact same (attempts_dropIfUnused _)
  | reapWorker present aborted => exact same (attempts_dropQueue _)

theorem Keeps.worker_none (keeps : m.Keeps m') (workless : m.worker = none) : m'.worker = none := by
  rcases keeps.worker with eq | eq
  · exact eq.trans workless
  · rw [eq, workless, Option.map_none]

theorem Move.workless (move : m.Move s store m' b notes) (staged : m.Staged)
    (stopped : m.lifecycle = .stopped) (workless : m.worker = none) : m'.worker = none := by
  cases move.shift staged with
  | create name =>
    obtain ⟨registry, handles, queue, eq⟩ := m.createHandle_eq name
    rw [eq]
    exact workless
  | release id =>
    obtain ⟨registry, handles, queue, eq⟩ := m.releaseHandle_eq id
    rw [eq]
    exact workless
  | work present move => cases workless.symm.trans present
  | request | pace => exact workless
  | stage staging =>
    cases staging with
    | launch early => exact absurd early (by simp [Early, stopped])
    | keep keeps => exact keeps.worker_none workless
  | reap => exact (keeps_dropQueue ({ m with worker := none } : Manager)).worker_none rfl

/-- What is left of a manager that has been stopped. -/
structure Winding (before m : Manager) : Prop where
  staged : m.Staged
  stopped : m.lifecycle = .stopped
  keepers : ∀ a ∈ m.attempts, a.keepsQueue = true →
    ∃ k ∈ before.attempts, k.keepsQueue = true ∧ k.id = a.id
  workless : before.worker = none → m.worker = none

theorem Winding.refl (staged : m.Staged) (stopped : m.lifecycle = .stopped) : m.Winding m :=
  ⟨staged, stopped, fun a member keeps => ⟨a, member, keeps, rfl⟩, id⟩

theorem Winding.move (winding : before.Winding m) (move : m.Move s store m' b notes) :
    before.Winding m' where
  staged := winding.staged.move move
  stopped := move.stopped winding.stopped
  keepers a member keeps := by
    obtain ⟨k, there, kept, number⟩ := move.keepers winding.stopped member keeps
    obtain ⟨k', there', kept', number'⟩ := winding.keepers k there kept
    exact ⟨k', there', kept', number'.trans number⟩
  workless early := move.workless winding.staged winding.stopped (winding.workless early)

theorem winding_stop (staged : m.Staged) : m.Winding m.stop.1 where
  staged := staged.stop
  stopped := m.lifecycle_stop
  keepers a member keeps := ⟨a, m.attempts_stop ▸ member, keeps, rfl⟩
  workless := (keeps_stop m).worker_none

/-- Nobody is left who would take a command out of the queue. -/
structure Deserted (m : Manager) : Prop where
  attempts : ∀ a ∈ m.attempts, a.keepsQueue = false
  worker : m.worker = none

theorem closed_iff_deserted (stopped : m.lifecycle = .stopped) : m.queueOpen = false ↔ m.Deserted := by
  rw [← Bool.not_eq_true, queueOpen_iff]
  constructor
  · intro closed
    refine ⟨fun a member => ?_, ?_⟩
    · rw [← Bool.not_eq_true]
      exact fun keeps => closed (.inr (.inl ⟨a, member, keeps⟩))
    · rw [← Option.not_isSome_iff_eq_none]
      exact fun there => closed (.inr (.inr there))
  · rintro ⟨attempts, worker⟩ (idle | ⟨a, member, keeps⟩ | there)
    · cases stopped.symm.trans idle
    · cases (attempts a member).symm.trans keeps
    · simp [worker] at there

theorem Deserted.winding (deserted : before.Deserted) (winding : before.Winding m) : m.Deserted where
  attempts a member := by
    rw [← Bool.not_eq_true]
    intro keeps
    obtain ⟨k, there, kept, _⟩ := winding.keepers a member keeps
    cases (deserted.attempts k there).symm.trans kept
  worker := winding.workless deserted.worker

theorem Staged.deserted (staged : m.Staged) (idle : m.lifecycle = .idle) : m.Deserted :=
  ⟨fun a member => by simpa using staged.no_keeper idle a member, staged.worker_none (.inl idle)⟩

theorem createHandle_answer (m : Manager) (name : String) :
    m.queueOpen = false ∧ (m.createHandle name).1 = .error .stopped
      ∨ m.queueOpen = true ∧ (m.createHandle name).1 = .error (.conflict name)
      ∨ m.queueOpen = true
        ∧ (m.createHandle name).1 = .ok ⟨name, m.registry.nextId, false, false⟩ := by
  cases opened : m.queueOpen with
  | false => exact .inl ⟨rfl, by rw [createHandle_of_closed opened]⟩
  | true =>
    cases taken : m.registry.active.lookup name with
    | none => exact .inr (.inr ⟨rfl, by rw [createHandle_of_free opened taken]⟩)
    | some id => exact .inr (.inl ⟨rfl, by rw [createHandle_of_taken opened (by simp [taken])]⟩)

theorem createHandle_stopped_iff (name : String) :
    (m.createHandle name).1 = .error .stopped ↔ m.queueOpen = false := by
  rcases m.createHandle_answer name with ⟨queue, answer⟩ | ⟨queue, answer⟩ | ⟨queue, answer⟩ <;>
    simp [queue, answer]

theorem id_of_createHandle {name : String} {h : Handle} (given : (m.createHandle name).1 = .ok h) :
    h.id = m.registry.nextId := by
  rcases m.createHandle_answer name with ⟨_, answer⟩ | ⟨_, answer⟩ | ⟨_, answer⟩
  · cases answer.symm.trans given
  · cases answer.symm.trans given
  · cases answer.symm.trans given
    rfl

end Manager

namespace World

variable {w w' : World} {i : Nat} {p p' : Participant} {name : String} {later : List Action}

/-! ## What is refused -/

theorem create_stopped_iff (name : String) (present : w.participants[i]? = some p)
    (stopped : p.manager.lifecycle = .stopped) :
    (w.create i name).1 = .error .stopped ↔ p.manager.Deserted := by
  rw [← Manager.closed_iff_deserted stopped, ← Manager.createHandle_stopped_iff name]
  simp [create, present]

theorem create_of_deserted (present : w.participants[i]? = some p)
    (stopped : p.manager.lifecycle = .stopped) (deserted : p.manager.Deserted) :
    w.create i name = (.error .stopped, w) := by
  have closed := (Manager.closed_iff_deserted stopped).mpr deserted
  simp only [create, present, Manager.createHandle_of_closed closed, setManager_same present, note_nil]

/-! ## From the stop on -/

theorem participant_stop (present : w.participants[i]? = some p) :
    (w.stop i).participants[i]? = some { p with manager := p.manager.stop.1 } := by
  simp [World.stop, changeManager, present, note, setManager]

theorem workless_of_quiet {before : Manager} (present : w.participants[i]? = some p)
    (winding : before.Winding p.manager) (quiet : w.isQuiet = true) : p.manager.worker = none := by
  have ending : w.Ending i p := ⟨present, winding.staged, winding.stopped⟩
  exact (ending.gone quiet).1

/-- What a run leaves of a stopped manager: it winds up, and as long as its worker is there, no time has
    passed. -/
theorem winding_of_run {before : Manager} (run : w.run? later = some w')
    (present : w.participants[i]? = some p) (winding : before.Winding p.manager) :
    ∃ p', w'.participants[i]? = some p' ∧ before.Winding p'.manager
      ∧ (p'.manager.worker ≠ none → w'.now = w.now) := by
  have step (v : World) (a : Action) (v' : World)
      (left : ∃ q, v.participants[i]? = some q ∧ before.Winding q.manager
        ∧ (q.manager.worker ≠ none → v.now = w.now)) (_ : True) (change : v.Change a v') :
      ∃ q, v'.participants[i]? = some q ∧ before.Winding q.manager
        ∧ (q.manager.worker ≠ none → v'.now = w.now) := by
    obtain ⟨q, there, winding, instant⟩ := left
    have inside := (List.getElem?_eq_some_iff.mp there).1
    rw [← change.length_participants] at inside
    obtain ⟨q', there'⟩ : ∃ q', v'.participants[i]? = some q' := ⟨_, List.getElem?_eq_getElem inside⟩
    obtain ⟨q₀, there₀, follows⟩ := change.past_cases there'
    obtain rfl := Option.some.inj (there.symm.trans there₀)
    have wound : before.Winding q'.manager ∧ (q.manager.worker = none → q'.manager.worker = none) := by
      rcases follows with ⟨same, _⟩ | ⟨b, notes, move, _⟩
      · rw [same]
        exact ⟨winding, id⟩
      · exact ⟨winding.move move, move.workless winding.staged winding.stopped⟩
    refine ⟨q', there', wound.1, fun worker => ?_⟩
    rcases change.time_cases with ⟨now, _⟩ | ⟨quiet, _⟩
    · exact now.trans (instant fun gone => worker (wound.2 gone))
    · exact absurd (wound.2 (workless_of_quiet there winding quiet)) worker
  exact run?_preserves step (fun _ _ => trivial) run ⟨p, present, winding, fun _ => rfl⟩

/-- A handle that a stopped manager hands out while nothing of it is on the move is never acquired, and
    nobody is ever told anything about it. -/
theorem Halted.stillborn (halted : w.Halted i p) (reachable : w.Reachable) {h : Handle}
    (created : (w.create i name).1 = .ok h) (run : (w.create i name).2.run? later = some w')
    (present' : w'.participants[i]? = some p') :
    w'.history i h.id = [] ∧ ∀ h' ∈ p'.manager.handles, h'.id = h.id → h'.isAcquired = false := by
  have number : h.id = p.manager.registry.nextId := by
    have given : (p.manager.createHandle name).1 = .ok h := by simpa [create, halted.present] using created
    exact Manager.id_of_createHandle given
  have run₀ : w.run? (.create i name :: later) = some w' := run
  obtain ⟨silent, _, flags⟩ := halted.handles reachable run₀ present'
  have recorded := reachable.recorded halted.present
  constructor
  · rw [silent, number]
    exact recorded.heard.unborn _ le_rfl
  · intro h' member' same
    rw [← Bool.not_eq_true, flags h' member']
    rintro ⟨_, h₀, member₀, number₀, _⟩
    have old := recorded.balanced.id_lt member₀
    omega

/-- A manager that has been stopped refuses a new handle, and then leaves everything as it is, if and only if
    no attempt to start keeps its queue and its worker is gone; once it has refused one it refuses all.
    The only attempt that can still keep the queue is one that kept it when the manager was stopped, and
    the worker is gone before time passes or nothing can happen without it; so a manager that was idle
    refuses at once, and one that was running as soon as the runtime has taken its worker away. If neither
    worker nor scheduler was in the middle of a turn when the manager was stopped, a handle that is handed
    out in between is never acquired. -/
theorem create_after_stop {start : World} {actions : List Action} (begins : start.Begins)
    (run : start.run? actions = some w) (present : w.participants[i]? = some p)
    (run' : (w.stop i).run? later = some w') :
    ∃ p', w'.participants[i]? = some p' ∧ p'.manager.lifecycle = .stopped
      ∧ (∀ name, ((w'.create i name).1 = .error .stopped
          ↔ (∀ a ∈ p'.manager.attempts, a.keepsQueue = false) ∧ p'.manager.worker = none)
        ∧ ((w'.create i name).1 = .error .stopped → (w'.create i name).2 = w'
          ∧ ∀ more w'' name', w'.run? more = some w'' → (w''.create i name').1 = .error .stopped))
      ∧ (∀ a ∈ p'.manager.attempts, a.keepsQueue = true →
        p.manager.lifecycle ≠ .idle ∧ ∃ k ∈ p.manager.attempts, k.keepsQueue = true ∧ k.id = a.id)
      ∧ (p'.manager.worker ≠ none →
        p.manager.worker ≠ none ∧ w'.now = w.now ∧ w'.isQuiet = false)
      ∧ (p.manager.lifecycle = .idle → ∀ name, (w'.create i name).1 = .error .stopped)
      ∧ (p.manager.worker ≠ none → w'.isQuiet = true ∨ w'.now ≠ w.now →
        ∀ name, (w'.create i name).1 = .error .stopped)
      ∧ (⟨i, .worker⟩ ∉ w.moving → ⟨i, .scheduler⟩ ∉ w.moving →
        ∀ name h, (w'.create i name).1 = .ok h → ∀ more w'' p'',
          (w'.create i name).2.run? more = some w'' → w''.participants[i]? = some p'' →
            w''.history i h.id = []
              ∧ ∀ h' ∈ p''.manager.handles, h'.id = h.id → h'.isAcquired = false) := by
  have reachable : w.Reachable := ⟨start, actions, begins, run⟩
  have staged := reachable.staged (List.mem_of_getElem? present)
  have now : (w.stop i).now = w.now := by
    unfold World.stop changeManager
    split <;> rfl
  obtain ⟨p', present', winding, instant⟩ :=
    winding_of_run run' (participant_stop present) (Manager.winding_stop staged)
  rw [now] at instant
  have refused {name : String} := create_stopped_iff name present' winding.stopped
  have workless (still : w'.isQuiet = true ∨ w'.now ≠ w.now) : p'.manager.worker = none := by
    by_contra there
    rcases still with quiet | later
    · exact there (workless_of_quiet present' winding quiet)
    · exact later (instant there)
  refine ⟨p', present', winding.stopped, fun name => ⟨?_, fun closed => ⟨?_, ?_⟩⟩, ?_, ?_, ?_, ?_, ?_⟩
  · rw [refused]
    exact ⟨fun deserted => ⟨deserted.attempts, deserted.worker⟩, fun ⟨attempts, worker⟩ => ⟨attempts, worker⟩⟩
  · rw [create_of_deserted present' winding.stopped (refused.mp closed)]
  · intro more w'' name' run''
    obtain ⟨p'', present'', winding', _⟩ :=
      winding_of_run run'' present' (.refl winding.staged winding.stopped)
    exact (create_stopped_iff name' present'' winding'.stopped).mpr ((refused.mp closed).winding winding')
  · intro a member keeps
    obtain ⟨k, there, kept, number⟩ := winding.keepers a member keeps
    exact ⟨(staged.keeping k there kept).1, k, there, kept, number⟩
  · intro there
    refine ⟨fun gone => there (winding.workless gone), instant there, ?_⟩
    rw [← Bool.not_eq_true]
    exact fun quiet => there (workless (.inl quiet))
  · intro idle name
    exact refused.mpr ((staged.deserted idle).winding winding)
  · intro worker still name
    refine refused.mpr ⟨fun a member => ?_, workless still⟩
    rw [← Bool.not_eq_true]
    intro keeps
    obtain ⟨k, there, kept, _⟩ := winding.keepers a member keeps
    exact worker (staged.keeping k there kept).2
  · intro worker scheduler name h created more w'' p'' run'' present''
    obtain ⟨q, halted, _⟩ := (halted_stop present staged worker scheduler).run run'
    have stopped : w.act? (.stop i) = some (w.stop i) := rfl
    exact halted.stillborn ((reachable.act stopped).run run') created run'' present''

/-- A start waits for the store's time. -/
def haste : List Action :=
  [.setLink 0 { delays := [(.referenceTime, 3)] }, .start 0] ++ turn 0 (.attempt 0) 2

/-- The store has answered, and the start is over. -/
def regret : List Action := List.replicate 3 .tick ++ turn 0 (.attempt 0) 3

/-- A start that waits for the store keeps the queue of a manager that has been stopped. A handle that is
    asked for in the meantime is handed out, and nothing is ever heard of it; when the start is over,
    handles are refused. -/
theorem create_after_stop_haste : ∃ (w late : World) (h : Handle),
    lone.run? haste = some w ∧ ((w.stop 0).create 0 "x").1 = .ok h
      ∧ ((w.stop 0).create 0 "x").2.run? regret = some late
      ∧ late.history 0 h.id = [] ∧ (late.create 0 "y").1 = .error .stopped
      ∧ ∀ more w' name, late.run? more = some w' → (w'.create 0 name).1 = .error .stopped := by
  have begins : lone.Begins := .join (.initial 0 [.freshMemory]) "a" (.ofMillis 8) 0 {}
  have run : lone.run? haste = some _ := rfl
  obtain ⟨_, _, _, _, _, _, _, _, unheard⟩ :=
    create_after_stop begins run (i := 0) rfl (show World.run? _ [] = some _ from rfl)
  obtain ⟨silent, _⟩ := unheard nofun nofun "x" _ rfl regret _ _ rfl rfl
  obtain ⟨_, _, _, refusals, _⟩ :=
    create_after_stop begins run (i := 0) rfl (show World.run? _ (.create 0 "x" :: regret) = some _ from rfl)
  exact ⟨_, _, _, run, rfl, rfl, silent, rfl, fun more w' name => ((refusals "y").2 rfl).2 more w' name⟩

end World

end Leasehold
