import Leasehold.Proofs.ManagerMoves

/-! # The stages of a manager

`Manager.Staged` relates where a manager stands to the tasks that it has: worker and scheduler are
there exactly while it runs, or until they notice that it has been stopped, and at most one attempt to
start keeps the queue. `Manager.Keeps` collects what the operations leave alone that only move a
manager from stage to stage.
-/

namespace Leasehold

/-- What a note changes of a handle. -/
def Handle.hear (h : Handle) : Note → Handle
  | .event _ id acquired => if h.id = id then { h with published := acquired } else h
  | _ => h

/-- What a note changes of the scheduler. -/
def Scheduler.hear (sc : Scheduler) : Note → Scheduler
  | .acknowledged ticket => sc.acknowledge ticket
  | _ => sc

theorem Scheduler.aborted_hear (sc : Scheduler) (notes : List Note) :
    (notes.foldl Scheduler.hear sc).aborted = sc.aborted := by
  induction notes generalizing sc with
  | nil => rfl
  | cons note notes ih =>
    rw [List.foldl_cons, ih]
    cases note with
    | acknowledged ticket =>
      simp only [hear, acknowledge]
      split <;> rfl
    | _ => rfl

theorem Scheduler.aborted_of_step {sc next : Scheduler} {now : Nat} {interval : Duration}
    {ticket : Option Nat} (step : sc.step now interval = some (next, ticket)) :
    next.aborted = sc.aborted := by
  unfold Scheduler.step at step
  split at step
  · cases step
    rfl
  · simp at step
  · cases step
    rfl
  · split at step
    · cases step
      rfl
    · simp at step

namespace Manager

variable {m m' : Manager} {s : Surroundings} {store : Backend}

theorem queueOpen_iff : m.queueOpen = true ↔
    m.lifecycle = .idle ∨ (∃ a ∈ m.attempts, a.keepsQueue = true) ∨ m.worker.isSome = true := by
  simp [queueOpen, or_assoc]

/-! ## What the operations leave alone -/

/-- Nothing happened to handles, registry and slots, and no queue was opened or changed. -/
structure Keeps (m m' : Manager) : Prop where
  owner : m'.owner = m.owner
  settings : m'.settings = m.settings
  registry : m'.registry = m.registry
  handles : m'.handles = m.handles
  worker : m'.worker = m.worker ∨ m'.worker = m.worker.map fun w => { w with aborted := true }
  opened : m'.queueOpen = true → m.queueOpen = true ∧ m'.queue = m.queue
  stopped : m.lifecycle = .stopped → m'.lifecycle = .stopped
  scheduler : ∀ sc', m'.scheduler = some sc' → ∃ sc, m.scheduler = some sc ∧ sc'.pacing = sc.pacing

theorem Keeps.refl (m : Manager) : m.Keeps m where
  owner := rfl
  settings := rfl
  registry := rfl
  handles := rfl
  worker := .inl rfl
  opened h := ⟨h, rfl⟩
  stopped := id
  scheduler sc present := ⟨sc, present, rfl⟩

theorem Keeps.trans {m₁ m₂ m₃ : Manager} (first : m₁.Keeps m₂) (last : m₂.Keeps m₃) :
    m₁.Keeps m₃ where
  owner := last.owner.trans first.owner
  settings := last.settings.trans first.settings
  registry := last.registry.trans first.registry
  handles := last.handles.trans first.handles
  worker := by
    rcases last.worker with h | h <;> rw [h]
    · exact first.worker
    · rcases first.worker with h | h <;> rw [h]
      · exact .inr rfl
      · rw [Option.map_map]
        exact .inr rfl
  opened h := by
    obtain ⟨open₂, queue₂⟩ := last.opened h
    obtain ⟨open₁, queue₁⟩ := first.opened open₂
    exact ⟨open₁, queue₂.trans queue₁⟩
  stopped h := last.stopped (first.stopped h)
  scheduler sc₃ present₃ := by
    obtain ⟨sc₂, present₂, pacing₂⟩ := last.scheduler sc₃ present₃
    obtain ⟨sc₁, present₁, pacing₁⟩ := first.scheduler sc₂ present₂
    exact ⟨sc₁, present₁, pacing₂.trans pacing₁⟩

theorem dropQueue_eq (m : Manager) : ∃ queue, m.dropQueue = { m with queue } := by
  unfold dropQueue
  split
  · exact ⟨m.queue, rfl⟩
  · exact ⟨[], rfl⟩

theorem keeps_dropQueue (m : Manager) : m.Keeps m.dropQueue := by
  unfold dropQueue
  split
  · exact .refl m
  · rename_i closed
    exact ⟨rfl, rfl, rfl, rfl, .inl rfl, fun h => absurd h closed, id,
      fun sc present => ⟨sc, present, rfl⟩⟩

/-- A manager that has been told to end. -/
def ended (m : Manager) : Manager := ({ m with lifecycle := .stopped }).abortTasks

theorem keeps_ended (m : Manager) : m.Keeps m.ended where
  owner := rfl
  settings := rfl
  registry := rfl
  handles := rfl
  worker := .inr rfl
  opened h := by
    refine ⟨?_, rfl⟩
    rw [queueOpen_iff] at h ⊢
    simpa [ended, abortTasks] using Or.inr h
  stopped _ := rfl
  scheduler sc present := by
    obtain ⟨sc₀, there, rfl⟩ := Option.map_eq_some_iff.mp present
    exact ⟨sc₀, there, rfl⟩

theorem dropIfUnused_cases (m : Manager) :
    m.dropIfUnused = m ∨ m.dropIfUnused = m.ended.dropQueue := by
  unfold dropIfUnused
  split
  · exact .inl rfl
  · exact .inr rfl

theorem keeps_dropIfUnused (m : Manager) : m.Keeps m.dropIfUnused := by
  rcases m.dropIfUnused_cases with h | h <;> rw [h]
  · exact .refl m
  · exact m.keeps_ended.trans (keeps_dropQueue _)

theorem stop_cases (m : Manager) :
    m.stop.1 = m.ended.dropQueue
      ∨ m.lifecycle ≠ .running ∧ m.stop.1 = ({ m with lifecycle := .stopped } : Manager).dropQueue := by
  by_cases running : m.lifecycle = .running
  · left
    simp [stop, running, ended]
  · right
    simp [stop, running]

theorem keeps_stop (m : Manager) : m.Keeps m.stop.1 := by
  rcases m.stop_cases with h | ⟨_, h⟩ <;> rw [h]
  · exact m.keeps_ended.trans (keeps_dropQueue _)
  · have first : m.Keeps { m with lifecycle := .stopped } := by
      refine ⟨rfl, rfl, rfl, rfl, .inl rfl, fun h => ⟨?_, rfl⟩, fun _ => rfl,
        fun sc present => ⟨sc, present, rfl⟩⟩
      rw [queueOpen_iff] at h ⊢
      simpa using Or.inr h
    exact first.trans (keeps_dropQueue _)

theorem keeps_abandon (m : Manager) : m.Keeps m.abandon := by
  have first : m.Keeps { m with referenced := false } :=
    ⟨rfl, rfl, rfl, rfl, .inl rfl, fun h => ⟨h, rfl⟩, fun h => h,
      fun sc present => ⟨sc, present, rfl⟩⟩
  exact first.trans (keeps_dropIfUnused _)

theorem keeps_attempts (attempts : List Attempt) (lifecycle : Lifecycle)
    (opened : ({ m with attempts, lifecycle } : Manager).queueOpen = true → m.queueOpen = true)
    (stopped : m.lifecycle = .stopped → lifecycle = .stopped) :
    m.Keeps { m with attempts, lifecycle } :=
  ⟨rfl, rfl, rfl, rfl, .inl rfl, fun h => ⟨opened h, rfl⟩, stopped,
    fun sc present => ⟨sc, present, rfl⟩⟩

theorem keeps_dropAttempt (m : Manager) (id : Nat) : m.Keeps (m.dropAttempt id) := by
  refine Keeps.trans (keeps_attempts (m.attempts.filter fun a => a.id ≠ id) m.lifecycle ?_
    fun stopped => stopped)
    ((keeps_dropQueue _).trans (keeps_dropIfUnused _))
  intro h
  rw [queueOpen_iff] at h ⊢
  rcases h with idle | ⟨a, member, keeps⟩ | worker
  · exact .inl idle
  · exact .inr (.inl ⟨a, (List.mem_filter.mp member).1, keeps⟩)
  · exact .inr (.inr worker)

theorem keeps_failStart {id : Nat} {e : LeaseError} (keeping : m.queueOpen = true) :
    m.Keeps (m.failStart id e).1 := by
  unfold failStart
  split
  · rename_i starting
    have first : m.Keeps { m with lifecycle := .idle } :=
      keeps_attempts m.attempts .idle (fun _ => keeping) fun stopped => by simp [starting] at stopped
    exact first.trans (keeps_dropAttempt _ _)
  · exact keeps_dropAttempt _ _

theorem keeps_setStage {id : Nat} {stage : AttemptStage} {lifecycle : Lifecycle}
    (keeping : m.queueOpen = true) (stopped : m.lifecycle = .stopped → lifecycle = .stopped) :
    m.Keeps (({ m with lifecycle }).setStage id stage) :=
  keeps_attempts _ lifecycle (fun _ => keeping) stopped

theorem keeps_endListing (m : Manager) (id : Nat) : m.Keeps (m.endListing id) := by
  have first : m.Keeps { m with listings := m.listings.filter fun l => l.id ≠ id } :=
    ⟨rfl, rfl, rfl, rfl, .inl rfl, fun h => ⟨h, rfl⟩, fun h => h,
      fun sc present => ⟨sc, present, rfl⟩⟩
  exact first.trans (keeps_dropIfUnused _)

theorem keeps_beginStart (m : Manager) (id : Nat) : m.Keeps (m.beginStart id) := by
  refine ⟨rfl, rfl, rfl, rfl, .inl rfl, fun h => ⟨?_, rfl⟩, fun h => h,
    fun sc present => ⟨sc, present, rfl⟩⟩
  rw [queueOpen_iff] at h ⊢
  rcases h with idle | ⟨a, member, keeps⟩ | worker
  · exact .inl idle
  · rcases List.mem_append.mp member with old | new
    · exact .inr (.inl ⟨a, old, keeps⟩)
    · simp [List.mem_singleton.mp new, Attempt.keepsQueue] at keeps
  · exact .inr (.inr worker)

theorem keeps_listings (listings : List Listing) : m.Keeps { m with listings } :=
  ⟨rfl, rfl, rfl, rfl, .inl rfl, fun h => ⟨h, rfl⟩, fun h => h,
    fun sc present => ⟨sc, present, rfl⟩⟩

theorem keeps_withoutScheduler : m.Keeps { m with scheduler := none } :=
  ⟨rfl, rfl, rfl, rfl, .inl rfl, fun h => ⟨h, rfl⟩, fun h => h, nofun⟩

theorem keepsQueue_of_stage {a : Attempt} (begun : a.stage ≠ .fresh) : a.keepsQueue = true := by
  simpa [Attempt.keepsQueue] using begun

theorem keepsQueue_of_call? {a : Attempt} {call : Call} (called : a.call? = some call) :
    a.keepsQueue = true := by
  refine keepsQueue_of_stage fun fresh => ?_
  simp [Attempt.call?, fresh] at called

theorem queueOpen_of_worker {w : Worker} (present : m.worker = some w) : m.queueOpen = true :=
  queueOpen_iff.mpr (.inr (.inr (by simp [present])))

theorem queueOpen_of_attempt {a : Attempt} (present : a ∈ m.attempts)
    (keeps : a.keepsQueue = true) : m.queueOpen = true :=
  queueOpen_iff.mpr (.inr (.inl ⟨a, present, keeps⟩))

theorem publishAll_eq (m : Manager) (notes : List Note) :
    m.publishAll notes = { m with
      handles := m.handles.map (notes.foldl Handle.hear)
      scheduler := m.scheduler.map (notes.foldl Scheduler.hear) } := by
  unfold publishAll
  induction notes generalizing m with
  | nil => simp
  | cons note notes ih =>
    rw [List.foldl_cons, ih (m.publish note)]
    cases note with
    | event name id acquired =>
      simp [publish, updateHandle, Handle.hear, Scheduler.hear, Function.comp_def]
    | acknowledged ticket =>
      simp [publish, Handle.hear, Scheduler.hear, Function.comp_def]
    | _ => simp [publish, Handle.hear, Scheduler.hear]

theorem send_of_open (opened : m.queueOpen = true) (c : Command) :
    m.send c = ({ m with queue := m.queue ++ [c] }, [.sent c]) := by
  simp [send, opened]

theorem send_of_closed (closed : m.queueOpen = false) (c : Command) :
    m.send c = (m, [.log .debug ("Lease work queue for " ++ m.owner ++ " is closed") []]) := by
  simp [send, closed]

theorem createHandle_of_free {name : String} (opened : m.queueOpen = true)
    (free : m.registry.active.lookup name = none) :
    m.createHandle name =
      (.ok ⟨name, m.registry.nextId, false, false⟩,
        { m with
          registry := ⟨m.registry.active ++ [(name, m.registry.nextId)], m.registry.nextId + 1⟩
          handles := m.handles ++ [⟨name, m.registry.nextId, false, false⟩]
          queue := m.queue ++ [.register name m.registry.nextId, .maintain none] },
        [.sent (.register name m.registry.nextId), .sent (.maintain none),
          .log .debug ("Created lease handle " ++ toString m.registry.nextId ++ " for " ++ name) []]) := by
  have still {registry : Registry} {handles : List Handle} {queue : List Command} :
      ({ m with registry, handles, queue } : Manager).queueOpen = true := opened
  simp [createHandle, opened, free, send_of_open, still]

theorem createHandle_of_taken {name : String} (opened : m.queueOpen = true)
    (taken : (m.registry.active.lookup name).isSome = true) :
    m.createHandle name = (.error (.conflict name), m, []) := by
  simp [createHandle, opened, taken]

theorem createHandle_of_closed {name : String} (closed : m.queueOpen = false) :
    m.createHandle name = (.error .stopped, m, []) := by
  simp [createHandle, closed]

/-- The handles, with the one of this number given up. -/
def giveBack (handles : List Handle) (id : Nat) : List Handle :=
  handles.map fun h => if h.id = id then { h with released := true } else h

theorem map_giveBack {α : Type} {f : Handle → α} (blind : ∀ h, f { h with released := true } = f h)
    (handles : List Handle) (id : Nat) : (giveBack handles id).map f = handles.map f := by
  rw [giveBack, List.map_map]
  refine List.map_congr_left fun h _ => ?_
  rw [Function.comp_apply]
  split
  · exact blind h
  · rfl

theorem mem_giveBack {handles : List Handle} {id : Nat} {h : Handle}
    (member : h ∈ giveBack handles id) : ∃ h₀ ∈ handles, ∃ released,
      h = { h₀ with released } ∧ (h₀.released = true → released = true) := by
  obtain ⟨h₀, inside, rfl⟩ := List.mem_map.mp member
  refine ⟨h₀, inside, ?_⟩
  split
  · exact ⟨true, rfl, fun _ => rfl⟩
  · exact ⟨h₀.released, rfl, fun released => released⟩

theorem releaseHandle_of_released {id : Nat}
    (gone : ∀ h, m.handle? id = some h → h.released = true) : m.releaseHandle id = (m, []) := by
  unfold releaseHandle
  split
  · rfl
  · rename_i h found
    rw [if_pos (gone h found)]

theorem releaseHandle_of_held {id : Nat} {h : Handle} (found : m.handle? id = some h)
    (held : h.released = false) :
    m.releaseHandle id
      = ({ m with handles := giveBack m.handles id } : Manager).unregister h.name id := by
  simp [releaseHandle, found, held, updateHandle, giveBack]

theorem releaseHandle_cases (m : Manager) (id : Nat) : m.releaseHandle id = (m, [])
    ∨ ∃ h ∈ m.handles, h.id = id ∧ h.released = false ∧ m.releaseHandle id
      = ({ m with handles := giveBack m.handles id } : Manager).unregister h.name id := by
  by_cases gone : ∀ h, m.handle? id = some h → h.released = true
  · exact .inl (releaseHandle_of_released gone)
  · push Not at gone
    obtain ⟨h, found, held⟩ := gone
    replace held : h.released = false := by simpa using held
    have number : h.id = id := by simpa using List.find?_some found
    exact .inr ⟨h, List.mem_of_find?_eq_some found, number, held, releaseHandle_of_held found held⟩

theorem unregister_of_active {name : String} {id : Nat}
    (active : m.registry.active.lookup name = some id) :
    m.unregister name id = ({ m with registry := { m.registry with
      active := m.registry.active.filter fun e => e.1 ≠ name } } : Manager).send (.release name id) := by
  simp [unregister, active]

theorem unregister_of_other {name : String} {id : Nat}
    (other : m.registry.active.lookup name ≠ some id) :
    (m.unregister name id).1 = m := by
  simp [unregister, other]

theorem send_eq (m : Manager) (c : Command) :
    ∃ more, (more = [] ∨ more = [c]) ∧ (m.send c).1 = { m with queue := m.queue ++ more } := by
  cases opened : m.queueOpen with
  | true => exact ⟨[c], .inr rfl, congrArg Prod.fst (send_of_open opened c)⟩
  | false => exact ⟨[], .inl rfl, by rw [send_of_closed opened, List.append_nil]⟩

theorem unregister_eq (m : Manager) (name : String) (id : Nat) :
    ∃ registry more, (more = [] ∨ more = [.release name id])
      ∧ (m.unregister name id).1 = { m with registry, queue := m.queue ++ more } := by
  by_cases active : m.registry.active.lookup name = some id
  · rw [unregister_of_active active]
    obtain ⟨more, command, eq⟩ := send_eq ({ m with registry := { m.registry with
      active := m.registry.active.filter fun e => e.1 ≠ name } } : Manager) (.release name id)
    exact ⟨_, more, command, eq⟩
  · rw [unregister_of_other active]
    exact ⟨m.registry, [], .inl rfl, by rw [List.append_nil]⟩

theorem createHandle_eq (m : Manager) (name : String) : ∃ registry handles more,
    (m.createHandle name).2.1 = { m with registry, handles, queue := m.queue ++ more } := by
  have same : m = { m with queue := m.queue ++ [] } := by rw [List.append_nil]
  cases opened : m.queueOpen with
  | false => exact ⟨_, _, [], (congrArg (·.2.1) (createHandle_of_closed opened)).trans same⟩
  | true =>
    cases taken : m.registry.active.lookup name with
    | none => exact ⟨_, _, _, congrArg (·.2.1) (createHandle_of_free opened taken)⟩
    | some id =>
      have found : (m.registry.active.lookup name).isSome = true := by simp [taken]
      exact ⟨_, _, [], (congrArg (·.2.1) (createHandle_of_taken opened found)).trans same⟩

theorem releaseHandle_eq (m : Manager) (id : Nat) : ∃ registry handles more,
    (m.releaseHandle id).1 = { m with registry, handles, queue := m.queue ++ more } := by
  rcases m.releaseHandle_cases id with eq | ⟨h, _, _, _, eq⟩
  · rw [eq]
    exact ⟨m.registry, m.handles, [], by rw [List.append_nil]⟩
  · rw [eq]
    obtain ⟨registry, more, _, eq⟩ :=
      unregister_eq { m with handles := giveBack m.handles id } h.name id
    exact ⟨registry, _, more, eq⟩

theorem finishStart_of_starting {label : String} {id : Nat} (starting : m.lifecycle = .starting) :
    (m.finishStart label id).1
      = (({ m with
            lifecycle := .running, worker := some .fresh, scheduler := some .fresh }).endAttempt id
          (.ok ())).1 := by
  simp [finishStart, starting]

theorem finishStart_of_stopped {label : String} {id : Nat} (ended : m.lifecycle ≠ .starting) :
    m.finishStart label id = m.endAttempt id (.error .stopped) := by
  simp [finishStart, ended]

/-! ## Where a manager stands -/

/-- How the stage of a manager and its tasks fit together. -/
structure Staged (m : Manager) : Prop where
  worker : ∀ w, m.worker = some w →
    m.lifecycle = .running ∧ w.aborted = false ∨ m.lifecycle = .stopped ∧ w.aborted = true
  scheduler : ∀ sc, m.scheduler = some sc →
    m.lifecycle = .running ∧ sc.aborted = false ∨ m.lifecycle = .stopped ∧ sc.aborted = true
  running : m.lifecycle = .running → m.worker.isSome = true ∧ m.scheduler.isSome = true
  keeping : ∀ a ∈ m.attempts, a.keepsQueue = true → m.lifecycle ≠ .idle ∧ m.worker = none
  alone : ∀ a ∈ m.attempts, ∀ b ∈ m.attempts,
    a.keepsQueue = true → b.keepsQueue = true → a.id = b.id

theorem staged_fresh (owner : String) (settings : Settings) : (fresh owner settings).Staged := by
  constructor <;> simp [fresh]

theorem Staged.worker_none (h : m.Staged) (early : m.lifecycle = .idle ∨ m.lifecycle = .starting) :
    m.worker = none := by
  cases present : m.worker with
  | none => rfl
  | some w => rcases h.worker w present with ⟨stage, _⟩ | ⟨stage, _⟩ <;> simp [stage] at early

theorem Staged.scheduler_none (h : m.Staged)
    (early : m.lifecycle = .idle ∨ m.lifecycle = .starting) : m.scheduler = none := by
  cases present : m.scheduler with
  | none => rfl
  | some sc => rcases h.scheduler sc present with ⟨stage, _⟩ | ⟨stage, _⟩ <;> simp [stage] at early

/-- The stage is kept where tasks are changed without being added, told to end, or removed. -/
theorem Staged.frame (h : m.Staged) (lifecycle : m'.lifecycle = m.lifecycle)
    (worker : m'.worker.map (·.aborted) = m.worker.map (·.aborted))
    (scheduler : m'.scheduler.map (·.aborted) = m.scheduler.map (·.aborted))
    (attempts : ∀ a ∈ m'.attempts, a.keepsQueue = true →
      ∃ b ∈ m.attempts, b.keepsQueue = true ∧ b.id = a.id) : m'.Staged where
  worker w present := by
    rw [present, Option.map_some] at worker
    obtain ⟨w₀, present₀, aborted⟩ := Option.map_eq_some_iff.mp worker.symm
    rw [lifecycle, ← aborted]
    exact h.worker w₀ present₀
  scheduler sc present := by
    rw [present, Option.map_some] at scheduler
    obtain ⟨sc₀, present₀, aborted⟩ := Option.map_eq_some_iff.mp scheduler.symm
    rw [lifecycle, ← aborted]
    exact h.scheduler sc₀ present₀
  running stage := by
    obtain ⟨w, sc⟩ := h.running (lifecycle ▸ stage)
    rw [← Option.isSome_map (f := fun w : Worker => w.aborted)] at w ⊢
    rw [← Option.isSome_map (f := fun sc : Scheduler => sc.aborted)] at sc ⊢
    exact ⟨worker ▸ w, scheduler ▸ sc⟩
  keeping a member keeps := by
    obtain ⟨b, member', keeps', _⟩ := attempts a member keeps
    obtain ⟨stage, none⟩ := h.keeping b member' keeps'
    refine ⟨lifecycle ▸ stage, ?_⟩
    rw [none, Option.map_none] at worker
    exact Option.map_eq_none_iff.mp worker
  alone a memberA b memberB keepsA keepsB := by
    obtain ⟨a', memberA', keepsA', idA⟩ := attempts a memberA keepsA
    obtain ⟨b', memberB', keepsB', idB⟩ := attempts b memberB keepsB
    rw [← idA, ← idB]
    exact h.alone a' memberA' b' memberB' keepsA' keepsB'

theorem Staged.dropQueue (h : m.Staged) : m.dropQueue.Staged := by
  obtain ⟨queue, eq⟩ := m.dropQueue_eq
  rw [eq]
  exact ⟨h.worker, h.scheduler, h.running, h.keeping, h.alone⟩

theorem Staged.ended (h : m.Staged) : m.ended.Staged where
  worker w present := by
    obtain ⟨w₀, _, rfl⟩ := Option.map_eq_some_iff.mp present
    exact .inr ⟨rfl, rfl⟩
  scheduler sc present := by
    obtain ⟨sc₀, _, rfl⟩ := Option.map_eq_some_iff.mp present
    exact .inr ⟨rfl, rfl⟩
  running stage := by simp [Manager.ended, abortTasks] at stage
  keeping a member keeps := by
    refine ⟨by simp [Manager.ended, abortTasks], ?_⟩
    simpa [Manager.ended, abortTasks] using (h.keeping a member keeps).2
  alone := h.alone

theorem Staged.dropIfUnused (h : m.Staged) : m.dropIfUnused.Staged := by
  rcases m.dropIfUnused_cases with eq | eq <;> rw [eq]
  · exact h
  · exact h.ended.dropQueue

theorem Staged.stop (h : m.Staged) : m.stop.1.Staged := by
  rcases m.stop_cases with eq | ⟨still, eq⟩ <;> rw [eq]
  · exact h.ended.dropQueue
  · refine Staged.dropQueue ⟨fun w present => ?_, fun sc present => ?_, ?_, ?_, h.alone⟩
    · rcases h.worker w present with ⟨stage, _⟩ | ⟨_, aborted⟩
      · exact absurd stage still
      · exact .inr ⟨rfl, aborted⟩
    · rcases h.scheduler sc present with ⟨stage, _⟩ | ⟨_, aborted⟩
      · exact absurd stage still
      · exact .inr ⟨rfl, aborted⟩
    · simp
    · intro a member keeps
      exact ⟨by simp, (h.keeping a member keeps).2⟩

theorem Staged.dropAttempt (h : m.Staged) (id : Nat) : (m.dropAttempt id).Staged := by
  refine Staged.dropIfUnused (Staged.dropQueue (h.frame rfl rfl rfl fun a member keeps => ?_))
  exact ⟨a, (List.mem_filter.mp member).1, keeps, rfl⟩

theorem Staged.failStart (h : m.Staged) {id : Nat} {e : LeaseError}
    (only : ∀ a ∈ m.attempts, a.keepsQueue = true → a.id = id) : (m.failStart id e).1.Staged := by
  unfold Manager.failStart
  split
  · rename_i starting
    have idle : m.worker = none ∧ m.scheduler = none :=
      ⟨h.worker_none (.inr starting), h.scheduler_none (.inr starting)⟩
    have gone : ∀ a ∈ m.attempts.filter (fun a => a.id ≠ id), a.keepsQueue ≠ true := by
      intro a member keeps
      obtain ⟨inside, other⟩ := List.mem_filter.mp member
      simp [only a inside keeps] at other
    refine Staged.dropIfUnused (Staged.dropQueue ⟨?_, ?_, ?_, ?_, ?_⟩)
    · simp [idle.1]
    · simp [idle.2]
    · simp
    · exact fun a member keeps => absurd keeps (gone a member)
    · exact fun a member _ _ keeps => absurd keeps (gone a member)
  · exact h.dropAttempt id

theorem Staged.finishStart (h : m.Staged) {label : String} {id : Nat}
    (only : ∀ a ∈ m.attempts, a.keepsQueue = true → a.id = id) :
    (m.finishStart label id).1.Staged := by
  unfold Manager.finishStart
  split
  · have gone : ∀ a ∈ m.attempts.filter (fun a => a.id ≠ id), a.keepsQueue ≠ true := by
      intro a member keeps
      obtain ⟨inside, other⟩ := List.mem_filter.mp member
      simp [only a inside keeps] at other
    refine Staged.dropIfUnused (Staged.dropQueue ⟨?_, ?_, ?_, ?_, ?_⟩)
    · rintro w ⟨⟩
      exact .inl ⟨rfl, rfl⟩
    · rintro sc ⟨⟩
      exact .inl ⟨rfl, rfl⟩
    · exact fun _ => ⟨rfl, rfl⟩
    · exact fun a member keeps => absurd keeps (gone a member)
    · exact fun a member _ _ keeps => absurd keeps (gone a member)
  · exact h.dropAttempt id

theorem Staged.no_keeper (h : m.Staged) (idle : m.lifecycle = .idle) :
    ∀ a ∈ m.attempts, a.keepsQueue ≠ true :=
  fun a member keeps => (h.keeping a member keeps).1 idle

theorem Staged.stopped_of_worker (h : m.Staged) {w : Worker} (present : m.worker = some w)
    (aborted : w.aborted = true) : m.lifecycle = .stopped := by
  rcases h.worker w present with ⟨_, still⟩ | ⟨stage, _⟩
  · simp [aborted] at still
  · exact stage

theorem Staged.stopped_of_scheduler (h : m.Staged) {sc : Scheduler} (present : m.scheduler = some sc)
    (aborted : sc.aborted = true) : m.lifecycle = .stopped := by
  rcases h.scheduler sc present with ⟨_, still⟩ | ⟨stage, _⟩
  · simp [aborted] at still
  · exact stage

theorem Staged.queueOpen_of_reaped (h : m.Staged) {w : Worker} (present : m.worker = some w)
    (aborted : w.aborted = true) : ({ m with worker := none } : Manager).queueOpen = false := by
  rw [← Bool.not_eq_true, queueOpen_iff]
  rintro (idle | ⟨a, member, keeps⟩ | there)
  · cases (h.stopped_of_worker present aborted).symm.trans idle
  · simp [(h.keeping a member keeps).2] at present
  · simp at there

theorem Staged.starting (h : m.Staged) (idle : m.lifecycle = .idle) :
    ({ m with lifecycle := .starting } : Manager).Staged where
  worker := by simp [h.worker_none (.inl idle)]
  scheduler := by simp [h.scheduler_none (.inl idle)]
  running := by simp
  keeping a member keeps := absurd keeps (h.no_keeper idle a member)
  alone := h.alone

theorem mem_setStage {id : Nat} {stage : AttemptStage} {a : Attempt}
    (member : a ∈ (m.setStage id stage).attempts) :
    a.id = id ∧ a.stage = stage ∨ a.id ≠ id ∧ a ∈ m.attempts := by
  obtain ⟨b, inside, rfl⟩ := List.mem_map.mp member
  by_cases own : b.id = id
  · simp [own]
  · simpa [own] using inside

/-- A manager stays staged, whatever happens to it. -/
theorem Staged.move (h : m.Staged) {b : Backend} {notes : List Note}
    (move : m.Move s store m' b notes) : m'.Staged := by
  have same {a : Attempt} (member : a ∈ m.attempts) (keeps : a.keepsQueue = true) :
      ∃ b ∈ m.attempts, b.keepsQueue = true ∧ b.id = a.id := ⟨a, member, keeps, rfl⟩
  cases move with
  | create name =>
    obtain ⟨registry, handles, queue, eq⟩ := m.createHandle_eq name
    rw [eq]
    exact h.frame rfl rfl rfl fun _ => same
  | release id =>
    obtain ⟨registry, handles, queue, eq⟩ := m.releaseHandle_eq id
    rw [eq]
    exact h.frame rfl rfl rfl fun _ => same
  | stop => exact h.stop
  | abandon => exact Staged.dropIfUnused (h.frame rfl rfl rfl fun _ => same)
  | beginStart id =>
    refine h.frame rfl rfl rfl fun a member keeps => ?_
    rcases List.mem_append.mp member with old | new
    · exact same old keeps
    · simp [List.mem_singleton.mp new, Attempt.keepsQueue] at keeps
  | beginListing id => exact h.frame rfl rfl rfl fun _ => same
  | @worker w r present move =>
    rw [publishAll_eq]
    refine h.frame rfl ?_ ?_ fun _ => same
    · simp [present, move.aborted_eq]
    · simp [Function.comp_def, Scheduler.aborted_hear]
  | request present step listened =>
    exact h.frame rfl rfl (by simp [present, Scheduler.aborted_of_step step]) fun _ => same
  | retire present step closed =>
    refine ⟨h.worker, by simp, fun stage => ?_, h.keeping, h.alone⟩
    have opened := queueOpen_iff.mpr (.inr (.inr (h.running stage).1))
    simp [opened] at closed
  | pace present step =>
    exact h.frame rfl rfl (by simp [present, Scheduler.aborted_of_step step]) fun _ => same
  | refuse id e => exact h.dropAttempt id
  | enter idle enabled =>
    refine ⟨(h.starting idle).worker, (h.starting idle).scheduler, (h.starting idle).running,
      fun a member keeps => ?_, fun a memberA b memberB keepsA keepsB => ?_⟩
    · exact ⟨Lifecycle.noConfusion, h.worker_none (.inl idle)⟩
    · rcases mem_setStage memberA with ⟨idA, _⟩ | ⟨_, oldA⟩
      · rcases mem_setStage memberB with ⟨idB, _⟩ | ⟨_, oldB⟩
        · exact idA.trans idB.symm
        · exact absurd keepsB (h.no_keeper idle b oldB)
      · exact absurd keepsA (h.no_keeper idle a oldA)
  | enterAlone idle disabled =>
    exact (h.starting idle).finishStart fun a member keeps =>
      absurd keeps (h.no_keeper idle a member)
  | fail present called due e fields _ =>
    exact h.failStart fun b member keeps =>
      h.alone b member _ present keeps (keepsQueue_of_call? called)
  | crash present comparing due answered overflows => exact h.dropAttempt _
  | @compare a₀ _ _ _ present comparing due answered near =>
    have keeping : a₀.keepsQueue = true := keepsQueue_of_stage (by simp [comparing])
    refine h.frame rfl rfl rfl fun a member keeps => ?_
    rcases mem_setStage member with ⟨id, _⟩ | ⟨_, old⟩
    · exact ⟨_, present, keeping, id.symm⟩
    · exact same old keeps
  | @finish a₀ _ _ present preparing due answered =>
    have keeping : a₀.keepsQueue = true := keepsQueue_of_stage (by simp [preparing])
    exact h.finishStart fun b member keeps => h.alone b member _ present keeps keeping
  | askListing id => exact h.frame rfl rfl rfl fun _ => same
  | endListing present called due =>
    exact Staged.dropIfUnused (h.frame rfl rfl rfl fun _ => same)
  | reapWorker present aborted =>
    have stopped := h.stopped_of_worker present aborted
    refine Staged.dropQueue ⟨by simp, h.scheduler, by simp [stopped], fun a member keeps => ?_, h.alone⟩
    exact ⟨(h.keeping a member keeps).1, rfl⟩
  | reapScheduler present aborted =>
    have stopped := h.stopped_of_scheduler present aborted
    exact ⟨h.worker, by simp [reap], by simp [reap, stopped], h.keeping, h.alone⟩

/-- A manager that has been stopped stays so. -/
theorem Move.stopped {b : Backend} {notes : List Note} (move : m.Move s store m' b notes)
    (stopped : m.lifecycle = .stopped) : m'.lifecycle = .stopped := by
  cases move with
  | create name =>
    obtain ⟨registry, handles, queue, eq⟩ := m.createHandle_eq name
    rw [eq]
    exact stopped
  | release id =>
    obtain ⟨registry, handles, queue, eq⟩ := m.releaseHandle_eq id
    rw [eq]
    exact stopped
  | stop => exact (keeps_stop m).stopped stopped
  | abandon => exact (keeps_abandon m).stopped stopped
  | worker present move =>
    rw [publishAll_eq]
    exact stopped
  | beginStart | beginListing | request | retire | pace | askListing | reapScheduler => exact stopped
  | refuse id e => exact (keeps_dropAttempt m id).stopped stopped
  | enter idle enabled => simp [idle] at stopped
  | enterAlone idle disabled => simp [idle] at stopped
  | fail present called due e fields _ =>
    exact (keeps_failStart (queueOpen_of_attempt present (keepsQueue_of_call? called))).stopped stopped
  | crash present comparing due answered overflows =>
    exact (keeps_dropAttempt m _).stopped stopped
  | compare present comparing due answered near => exact stopped
  | finish present preparing due answered =>
    rw [finishStart_of_stopped (by simp [stopped])]
    exact (keeps_dropAttempt m _).stopped stopped
  | endListing present called due => exact (keeps_endListing m _).stopped stopped
  | reapWorker present aborted => exact (keeps_dropQueue { m with worker := none }).stopped stopped

end Manager

end Leasehold
