import Leasehold.Proofs.Lifecycle
import Leasehold.Proofs.WorldMoves

/-! # Registry, queue and slots

The registry says at once which names are in use; the worker learns it through its queue. What ties
the two together: applying the queued commands to the worker's slots, in order, gives exactly the
registry, and each command finds on its way what it expects. `Manager.Balanced` states this with what
it needs of the handles; it is kept by everything that can happen to a manager.
-/

namespace Leasehold

/-- Names with the number of the handle that each belongs to. -/
abbrev Ledger := List (String × Nat)

namespace Command

/-- What a command makes of the names that are tracked. -/
def post : Command → Ledger → Ledger
  | .register name id, l => l.filter (fun e => e.1 ≠ name) ++ [(name, id)]
  | .release name id, l => if l.lookup name = some id then l.filter fun e => e.1 ≠ name else l
  | .maintain _, l => l

/-- A registration finds its name free; a release finds the handle that it releases. -/
def Fits : Command → Ledger → Prop
  | .register name _, l => l.lookup name = none
  | .release name id, l => l.lookup name = some id
  | .maintain _, _ => True

end Command

namespace Ledger

theorem mem_post {l : Ledger} {c : Command} {e : String × Nat} (member : e ∈ c.post l) :
    e ∈ l ∨ c = .register e.1 e.2 := by
  cases c with
  | register name id =>
    rcases List.mem_append.mp member with old | new
    · exact .inl (List.mem_filter.mp old).1
    · exact .inr (by rw [List.mem_singleton.mp new])
  | release name id =>
    simp only [Command.post] at member
    split at member
    · exact .inl (List.mem_filter.mp member).1
    · exact .inl member
  | maintain ticket => exact .inl member

theorem nodup_post {l : Ledger} (nodup : (l.map (·.1)).Nodup) (c : Command) :
    ((c.post l).map (·.1)).Nodup := by
  have rest (name : String) : ((l.filter fun e => e.1 ≠ name).map (·.1)).Nodup :=
    nodup.sublist (List.filter_sublist.map _)
  cases c with
  | register name id =>
    simp only [Command.post, List.map_append, List.map_cons, List.map_nil]
    refine List.nodup_append.mpr ⟨rest name, List.nodup_singleton _, fun a member b new => ?_⟩
    obtain ⟨e, inside, rfl⟩ := List.mem_map.mp member
    rw [List.mem_singleton.mp new]
    simpa using (List.mem_filter.mp inside).2
  | release name id =>
    simp only [Command.post]
    split
    · exact rest name
    · exact nodup
  | maintain ticket => exact nodup

/-- The commands of a queue, one after the other. -/
def replay (l : Ledger) (queue : List Command) : Ledger := queue.foldl (fun l c => c.post l) l

/-- Every command of a queue finds what it expects when its turn comes. -/
def Admits : Ledger → List Command → Prop
  | _, [] => True
  | l, c :: queue => c.Fits l ∧ Admits (c.post l) queue

theorem replay_concat (l : Ledger) (queue : List Command) (c : Command) :
    l.replay (queue ++ [c]) = c.post (l.replay queue) := by
  simp [replay]

theorem admits_concat {l : Ledger} {queue : List Command} {c : Command}
    (before : l.Admits queue) (fits : c.Fits (l.replay queue)) : l.Admits (queue ++ [c]) := by
  induction queue generalizing l with
  | nil => exact ⟨fits, trivial⟩
  | cons first queue ih => exact ⟨before.1, ih before.2 fits⟩

end Ledger

namespace Slots

/-- The handle of each tracked name. -/
def ledger (slots : Slots) : Ledger := slots.map fun s => (s.1, s.2.id)

theorem lookup_ledger (slots : Slots) (name : String) :
    slots.ledger.lookup name = (slots.find? name).map (·.id) :=
  Keyed.lookup_map_value slots (fun _ slot => slot.id) name

theorem find?_of_fits {slots : Slots} {name : String} {id : Nat}
    (fits : (Command.register name id).Fits slots.ledger) : slots.find? name = none := by
  have free : slots.ledger.lookup name = none := fits
  rw [lookup_ledger] at free
  exact Option.map_eq_none_iff.mp free

theorem ledger_erase (slots : Slots) (name : String) :
    (slots.erase name).ledger = slots.ledger.filter fun e => e.1 ≠ name := by
  simp [ledger, erase, List.filter_map, Function.comp_def]

theorem ledger_insert (slots : Slots) (name : String) (slot : Slot) :
    (slots.insert name slot).ledger
      = slots.ledger.filter (fun e => e.1 ≠ name) ++ [(name, slot.id)] := by
  rw [← ledger_erase, insert, ledger, List.map_append]
  rfl

theorem ledger_assign (slots : Slots) (f : String → Bool) : (slots.assign f).ledger = slots.ledger := by
  simp [ledger, assign]

end Slots

namespace Worker

theorem ledger_apply (w : Worker) (c : Command) (b : Batch) :
    (w.apply c b).1.slots.ledger = c.post w.slots.ledger := by
  cases c with
  | register name id => exact w.slots.ledger_insert name ⟨id, false⟩
  | release name id =>
    simp only [apply, release, Command.post, Slots.lookup_ledger]
    cases found : w.slots.find? name with
    | none => simp
    | some slot =>
      by_cases own : slot.id = id
      · simp [own, Slots.ledger_erase]
      · simp [own]
  | maintain ticket => rfl

theorem ledger_giveUp (w : Worker) (s : Surroundings) :
    (w.giveUp s).1.slots.ledger = w.slots.ledger := by
  cases due : w.mustGiveUp s with
  | true =>
    rw [giveUp_of_due due]
    exact w.slots.ledger_assign fun _ => false
  | false => rw [giveUp_of_safe due]

theorem ledger_resume (w : Worker) (s : Surroundings) (c : Cycle) (reply : Reply) :
    (w.resume s c reply).1.slots.ledger = w.slots.ledger := by
  rcases w.resume_eq s c reply with ⟨_, activity, eq⟩ | ⟨_, activity, eq⟩ <;> rw [eq]
  exact Slots.ledger_assign _ _

/-- The worker changes what it tracks by the commands that it takes, and by nothing else. -/
theorem Move.ledger_cases {w : Worker} {s : Surroundings} {queue : List Command} {store : Backend}
    {r : WorkerStep} (h : w.Move s queue store r) :
    r.worker.slots.ledger = w.slots.ledger ∧ r.queue = queue
      ∨ ∃ c, queue = c :: r.queue ∧ r.worker.slots.ledger = c.post w.slots.ledger := by
  cases h with
  | @take c _ _ b listening => exact .inr ⟨c, rfl, w.ledger_apply c b⟩
  | beginCycle draining => exact .inl ⟨rfl, rfl⟩
  | beginRelease parting => exact .inl ⟨rfl, rfl⟩
  | endRelease releasing due => exact .inl ⟨rfl, rfl⟩
  | abandonRelease releasing pending late => exact .inl ⟨w.ledger_giveUp s, rfl⟩
  | resume cycling due answered => exact .inl ⟨w.ledger_resume s _ _, rfl⟩
  | failCycle cycling due failed => exact .inl ⟨w.ledger_giveUp s, rfl⟩
  | overrun cycling pending late => exact .inl ⟨w.ledger_giveUp s, rfl⟩

theorem Move.ledger_replay {w : Worker} {s : Surroundings} {queue : List Command} {store : Backend}
    {r : WorkerStep} (h : w.Move s queue store r) :
    r.worker.slots.ledger.replay r.queue = w.slots.ledger.replay queue
      ∧ (w.slots.ledger.Admits queue → r.worker.slots.ledger.Admits r.queue) := by
  rcases h.ledger_cases with ⟨same, queue_eq⟩ | ⟨c, queue_eq, post⟩
  · rw [same, queue_eq]
    exact ⟨rfl, id⟩
  · rw [post, queue_eq]
    exact ⟨rfl, fun admits => admits.2⟩

end Worker

theorem Handle.hear_eq (notes : List Note) (h : Handle) :
    ∃ published, notes.foldl Handle.hear h = { h with published } := by
  induction notes generalizing h with
  | nil => exact ⟨h.published, rfl⟩
  | cons note notes ih =>
    obtain ⟨published, rest⟩ := ih (h.hear note)
    rw [List.foldl_cons, rest]
    refine ⟨published, ?_⟩
    unfold hear
    split
    · split <;> rfl
    · rfl

namespace Manager

variable {m m' : Manager} {s : Surroundings} {store : Backend}

theorem map_hear {α : Type} {f : Handle → α} (blind : ∀ h published, f { h with published } = f h)
    (handles : List Handle) (notes : List Note) :
    (handles.map (notes.foldl Handle.hear)).map f = handles.map f := by
  rw [List.map_map]
  refine List.map_congr_left fun h _ => ?_
  obtain ⟨published, eq⟩ := Handle.hear_eq notes h
  rw [Function.comp_apply, eq, blind]

/-- The handles of the names that the worker tracks. -/
def tracked (m : Manager) : Ledger := (m.worker.map fun w => w.slots.ledger).getD []

/-- The handles that have not been given up. -/
def unreleased (handles : List Handle) : Ledger :=
  (handles.filter fun h => !h.released).map fun h => (h.name, h.id)

/-- Handles, registry, queue and slots agree. -/
structure Balanced (m : Manager) : Prop where
  numbered : m.handles.map (·.id) = List.range m.registry.nextId
  active : m.registry.active = unreleased m.handles
  distinct : (m.registry.active.map (·.1)).Nodup
  latest : ∀ h ∈ m.handles, ∀ k ∈ m.handles, h.name = k.name → h.id < k.id → h.released = true
  replayed : m.queueOpen = true → m.tracked.replay m.queue = m.registry.active
  admitted : m.queueOpen = true → m.tracked.Admits m.queue

theorem balanced_fresh (owner : String) (settings : Settings) :
    (fresh owner settings).Balanced := by
  constructor <;> simp [fresh, unreleased, tracked, Ledger.replay, Ledger.Admits]

theorem Keeps.tracked (keeps : m.Keeps m') : m'.tracked = m.tracked := by
  unfold Manager.tracked
  rcases keeps.worker with same | aborted
  · rw [same]
  · rw [aborted, Option.map_map]
    rfl

theorem Balanced.keeps (h : m.Balanced) (keeps : m.Keeps m') : m'.Balanced where
  numbered := by rw [keeps.handles, keeps.registry]; exact h.numbered
  active := by rw [keeps.handles, keeps.registry]; exact h.active
  distinct := by rw [keeps.registry]; exact h.distinct
  latest := by rw [keeps.handles]; exact h.latest
  replayed opened := by
    obtain ⟨opened, queue⟩ := keeps.opened opened
    rw [keeps.tracked, keeps.registry, queue]
    exact h.replayed opened
  admitted opened := by
    obtain ⟨opened, queue⟩ := keeps.opened opened
    rw [keeps.tracked, queue]
    exact h.admitted opened

theorem Balanced.lookup_active (h : m.Balanced) {k : Handle} (member : k ∈ m.handles)
    (held : k.released = false) : m.registry.active.lookup k.name = some k.id := by
  refine Keyed.lookup_of_mem h.distinct ?_
  rw [h.active]
  exact List.mem_map.mpr ⟨k, List.mem_filter.mpr ⟨member, by simp [held]⟩, rfl⟩

theorem Balanced.handle_eq (h : m.Balanced) {k k' : Handle} (member : k ∈ m.handles)
    (member' : k' ∈ m.handles) (same : k.id = k'.id) : k = k' := by
  have nodup : (m.handles.map (·.id)).Nodup := by
    rw [h.numbered]
    exact List.nodup_range
  exact List.inj_on_of_nodup_map nodup member member' same

theorem Balanced.id_lt (h : m.Balanced) {k : Handle} (member : k ∈ m.handles) :
    k.id < m.registry.nextId := by
  rw [← List.mem_range, ← h.numbered]
  exact List.mem_map_of_mem member

theorem Balanced.latest_create (h : m.Balanced) {name : String}
    (free : m.registry.active.lookup name = none) :
    ∀ k ∈ m.handles ++ [⟨name, m.registry.nextId, false, false⟩],
      ∀ k' ∈ m.handles ++ [⟨name, m.registry.nextId, false, false⟩],
        k.name = k'.name → k.id < k'.id → k.released = true := by
  intro k member k' member' same earlier
  rcases List.mem_append.mp member with old | new
  · rcases List.mem_append.mp member' with old' | new'
    · exact h.latest k old k' old' same earlier
    · rw [List.mem_singleton.mp new'] at same
      cases held : k.released with
      | true => rfl
      | false =>
        have active := h.lookup_active old held
        rw [same, free] at active
        cases active
  · rw [List.mem_singleton.mp new] at earlier
    rcases List.mem_append.mp member' with old' | new'
    · exact absurd earlier (Nat.lt_asymm (h.id_lt old'))
    · rw [List.mem_singleton.mp new'] at earlier
      exact absurd earlier (Nat.lt_irrefl _)

theorem Balanced.create (h : m.Balanced) (name : String) : (m.createHandle name).2.1.Balanced := by
  cases opened : m.queueOpen with
  | false =>
    rw [createHandle_of_closed opened]
    exact h
  | true =>
    cases free : m.registry.active.lookup name with
    | some id =>
      rw [createHandle_of_taken opened (by simp [free])]
      exact h
    | none =>
      rw [createHandle_of_free opened free]
      have absent : name ∉ m.registry.active.map (·.1) := by
        rw [← Keyed.lookup_isSome_iff, free]
        simp
      have before := h.replayed opened
      refine ⟨?_, ?_, ?_, h.latest_create free, fun _ => ?_, fun _ => ?_⟩
      · simp [h.numbered, List.range_succ]
      · simp [h.active, unreleased]
      · simp only [List.map_append, List.map_cons, List.map_nil]
        exact List.nodup_append.mpr ⟨h.distinct, List.nodup_singleton _, fun a member b new => by
          rw [List.mem_singleton.mp new]
          rintro rfl
          exact absent member⟩
      · have others : m.registry.active.filter (fun e => e.1 ≠ name) = m.registry.active := by
          rw [List.filter_eq_self]
          intro e member
          have : e.1 ≠ name := fun same => absent (same ▸ List.mem_map_of_mem member)
          simpa using this
        change m.tracked.replay (m.queue ++ [_, _]) = _
        rw [show m.queue ++ [Command.register name m.registry.nextId, .maintain none]
            = (m.queue ++ [.register name m.registry.nextId]) ++ [.maintain none] by simp,
          Ledger.replay_concat, Ledger.replay_concat, before]
        simp only [Command.post, others]
      · change m.tracked.Admits (m.queue ++ [_, _])
        rw [show m.queue ++ [Command.register name m.registry.nextId, .maintain none]
            = (m.queue ++ [.register name m.registry.nextId]) ++ [.maintain none] by simp]
        refine Ledger.admits_concat (Ledger.admits_concat (h.admitted opened) ?_) trivial
        rw [before]
        exact free

theorem unreleased_giveBack {handles : List Handle} {id : Nat} {name : String}
    (own : ∀ k ∈ handles, k.released = false → (k.id = id ↔ k.name = name)) :
    unreleased (giveBack handles id) = (unreleased handles).filter fun e => e.1 ≠ name := by
  induction handles with
  | nil => rfl
  | cons k handles ih =>
    have rest := ih fun k member => own k (List.mem_cons_of_mem _ member)
    have first := own k List.mem_cons_self
    simp only [unreleased, giveBack, List.map_cons] at rest ⊢
    cases held : k.released with
    | true =>
      by_cases same : k.id = id
      · simpa [same, held] using rest
      · simpa [same, held] using rest
    | false =>
      by_cases same : k.id = id
      · simpa [same, held, (first held).mp same] using rest
      · have other : k.name ≠ name := fun eq => same ((first held).mpr eq)
        simpa [same, held, other] using rest

theorem unreleased_hear (handles : List Handle) (notes : List Note) :
    unreleased (handles.map (notes.foldl Handle.hear)) = unreleased handles := by
  induction handles with
  | nil => rfl
  | cons k handles ih =>
    obtain ⟨published, eq⟩ := Handle.hear_eq notes k
    simp only [unreleased, List.map_cons, eq] at ih ⊢
    cases held : k.released <;> simpa [held] using ih

theorem Balanced.release (h : m.Balanced) (id : Nat) : (m.releaseHandle id).1.Balanced := by
  rcases m.releaseHandle_cases id with eq | ⟨k, member, rfl, held, eq⟩
  · rw [eq]
    exact h
  · have active := h.lookup_active member held
    have own : ∀ k' ∈ m.handles, k'.released = false → (k'.id = k.id ↔ k'.name = k.name) := by
      intro k' member' held'
      constructor
      · intro same
        rw [h.handle_eq member' member same]
      · intro same
        have active' := h.lookup_active member' held'
        rw [same, active] at active'
        exact (Option.some.inj active').symm
    rw [eq, unregister_of_active (by exact active)]
    have numbered : (giveBack m.handles k.id).map (·.id) = List.range m.registry.nextId :=
      (map_giveBack (fun _ => rfl) _ _).trans h.numbered
    have latest : ∀ k₁ ∈ giveBack m.handles k.id, ∀ k₂ ∈ giveBack m.handles k.id,
        k₁.name = k₂.name → k₁.id < k₂.id → k₁.released = true := by
      intro k₁ member₁ k₂ member₂ same earlier
      obtain ⟨k₁', inside₁, released, rfl, stays⟩ := mem_giveBack member₁
      obtain ⟨k₂', inside₂, _, rfl, _⟩ := mem_giveBack member₂
      exact stays (h.latest k₁' inside₁ k₂' inside₂ same earlier)
    have distinct : ((m.registry.active.filter fun e => e.1 ≠ k.name).map (·.1)).Nodup :=
      h.distinct.sublist (List.filter_sublist.map _)
    have names := (congrArg (·.filter fun e => e.1 ≠ k.name) h.active).trans
      (unreleased_giveBack own).symm
    cases opened : m.queueOpen with
    | false =>
      rw [send_of_closed (by exact opened)]
      refine ⟨numbered, names, distinct, latest, fun reopened => ?_, fun reopened => ?_⟩
      · exact absurd (opened.symm.trans reopened) Bool.false_ne_true
      · exact absurd (opened.symm.trans reopened) Bool.false_ne_true
    | true =>
      rw [send_of_open (by exact opened)]
      refine ⟨numbered, names, distinct, latest, fun _ => ?_, fun _ => ?_⟩
      · change m.tracked.replay (m.queue ++ [_]) = _
        rw [Ledger.replay_concat, h.replayed opened]
        simp [Command.post, active]
      · refine Ledger.admits_concat (h.admitted opened) ?_
        change Command.Fits _ (m.tracked.replay m.queue)
        rw [h.replayed opened]
        exact active

theorem Balanced.work (h : m.Balanced) {w : Worker} {r : WorkerStep} (present : m.worker = some w)
    (move : w.Move s m.queue store r) :
    (({ m with worker := some r.worker, queue := r.queue }).publishAll r.notes).Balanced := by
  have opened := queueOpen_of_worker present
  have tracked : m.tracked = w.slots.ledger := by simp [Manager.tracked, present]
  obtain ⟨replayed, admitted⟩ := move.ledger_replay
  rw [publishAll_eq]
  refine ⟨?_, ?_, h.distinct, ?_, fun _ => ?_, fun _ => ?_⟩
  · exact (map_hear (fun _ _ => rfl) _ _).trans h.numbered
  · rw [unreleased_hear]
    exact h.active
  · intro k₁ member₁ k₂ member₂ same earlier
    obtain ⟨k₁', inside₁, rfl⟩ := List.mem_map.mp member₁
    obtain ⟨k₂', inside₂, rfl⟩ := List.mem_map.mp member₂
    obtain ⟨published₁, eq₁⟩ := Handle.hear_eq r.notes k₁'
    obtain ⟨published₂, eq₂⟩ := Handle.hear_eq r.notes k₂'
    rw [eq₁, eq₂] at same earlier
    rw [eq₁]
    exact h.latest k₁' inside₁ k₂' inside₂ same earlier
  · rw [← h.replayed opened, tracked]
    exact replayed
  · exact admitted (tracked ▸ h.admitted opened)

theorem Balanced.request (h : m.Balanced) (opened : m.queueOpen = true) (ticket : Option Nat)
    (scheduler : Option Scheduler) :
    ({ m with scheduler, queue := m.queue ++ [.maintain ticket] } : Manager).Balanced := by
  refine ⟨h.numbered, h.active, h.distinct, h.latest, fun _ => ?_, fun _ => ?_⟩
  · change m.tracked.replay (m.queue ++ [_]) = _
    rw [Ledger.replay_concat, h.replayed opened]
    rfl
  · exact Ledger.admits_concat (h.admitted opened) trivial

theorem Balanced.launch (h : m.Balanced) (opened : m.queueOpen = true) (none : m.worker = none)
    (scheduler : Option Scheduler) :
    ({ m with lifecycle := .running, worker := some .fresh, scheduler } : Manager).Balanced := by
  have tracked : m.tracked = [] := by simp [Manager.tracked, none]
  refine ⟨h.numbered, h.active, h.distinct, h.latest, fun _ => ?_, fun _ => ?_⟩
  · rw [← h.replayed opened, tracked]
    rfl
  · have admitted := h.admitted opened
    rw [tracked] at admitted
    exact admitted

/-- The balance is kept, whatever happens to a manager. -/
theorem Balanced.move (h : m.Balanced) (staged : m.Staged) {b : Backend} {notes : List Note}
    (move : m.Move s store m' b notes) : m'.Balanced := by
  cases move with
  | create name => exact h.create name
  | release id => exact h.release id
  | stop => exact h.keeps (keeps_stop m)
  | abandon => exact h.keeps (keeps_abandon m)
  | beginStart id => exact h.keeps (keeps_beginStart m id)
  | beginListing id => exact h.keeps (keeps_listings _)
  | worker present move => exact h.work present move
  | request present step listened => exact h.request listened _ _
  | retire present step closed => exact h.keeps keeps_withoutScheduler
  | pace present step =>
    exact ⟨h.numbered, h.active, h.distinct, h.latest, h.replayed, h.admitted⟩
  | refuse id e => exact h.keeps (keeps_dropAttempt m id)
  | enter idle enabled =>
    exact h.keeps (keeps_setStage (queueOpen_iff.mpr (.inl idle)) fun stopped => by
      simp [idle] at stopped)
  | enterAlone idle disabled =>
    rw [finishStart_of_starting rfl]
    refine Balanced.keeps ?_ (keeps_dropAttempt _ _)
    exact h.launch (queueOpen_iff.mpr (.inl idle)) (staged.worker_none (.inl idle)) _
  | fail present called due e fields _ =>
    exact h.keeps (keeps_failStart (queueOpen_of_attempt present (keepsQueue_of_call? called)))
  | crash present comparing due answered overflows => exact h.keeps (keeps_dropAttempt m _)
  | compare present comparing due answered near =>
    exact h.keeps (keeps_setStage (queueOpen_of_attempt present
      (keepsQueue_of_stage (by simp [comparing]))) id)
  | finish present preparing due answered =>
    by_cases starting : m.lifecycle = .starting
    · rw [finishStart_of_starting starting]
      refine Balanced.keeps ?_ (keeps_dropAttempt _ _)
      refine h.launch (queueOpen_of_attempt present ?_) (staged.worker_none (.inr starting)) _
      exact keepsQueue_of_stage (by simp [preparing])
    · rw [finishStart_of_stopped starting]
      exact h.keeps (keeps_dropAttempt m _)
  | askListing id => exact h.keeps (keeps_listings _)
  | endListing present called due => exact h.keeps (keeps_endListing m _)
  | reapWorker present aborted =>
    refine Balanced.keeps ?_ (keeps_dropQueue _)
    have closed := staged.queueOpen_of_reaped present aborted
    refine ⟨h.numbered, h.active, h.distinct, h.latest, fun opened => ?_, fun opened => ?_⟩
    · simp [closed] at opened
    · simp [closed] at opened
  | reapScheduler present aborted => exact h.keeps keeps_withoutScheduler

theorem Balanced.active_iff (h : m.Balanced) (name : String) :
    (m.registry.active.lookup name).isSome = true
      ↔ ∃ k ∈ m.handles, k.name = name ∧ k.released = false := by
  constructor
  · intro taken
    rw [Keyed.lookup_isSome_iff, h.active] at taken
    obtain ⟨e, member, rfl⟩ := List.mem_map.mp taken
    obtain ⟨k, inside, rfl⟩ := List.mem_map.mp member
    obtain ⟨there, held⟩ := List.mem_filter.mp inside
    exact ⟨k, there, rfl, by simpa using held⟩
  · rintro ⟨k, member, rfl, held⟩
    simp [h.lookup_active member held]

theorem Balanced.lookup_released (h : m.Balanced) {k : Handle} (member : k ∈ m.handles)
    (released : k.released = true) : m.registry.active.lookup k.name ≠ some k.id := by
  intro found
  have listed := Keyed.mem_of_lookup found
  rw [h.active] at listed
  obtain ⟨k', inside, same⟩ := List.mem_map.mp listed
  obtain ⟨there, held⟩ := List.mem_filter.mp inside
  have id : k'.id = k.id := congrArg Prod.snd same
  rw [h.handle_eq there member id] at held
  simp [released] at held

theorem Balanced.handle?_eq (h : m.Balanced) {k : Handle} (member : k ∈ m.handles) :
    m.handle? k.id = some k := by
  cases found : m.handle? k.id with
  | none => simpa using List.find?_eq_none.mp found k member
  | some k' =>
    have id : k'.id = k.id := by simpa using List.find?_some found
    rw [h.handle_eq (List.mem_of_find?_eq_some found) member id]

theorem createHandle_conflict_iff (opened : m.queueOpen = true) (name : String) :
    (m.createHandle name).1 = .error (.conflict name)
      ↔ (m.registry.active.lookup name).isSome = true := by
  cases taken : m.registry.active.lookup name with
  | none => simp [createHandle_of_free opened taken]
  | some id =>
    have found : (m.registry.active.lookup name).isSome = true := by simp [taken]
    simp [createHandle_of_taken opened found]

end Manager

namespace World

theorem Reachable.staged {w : World} (reachable : w.Reachable) {p : Participant}
    (member : p ∈ w.participants) : p.manager.Staged :=
  reachable.manager Manager.staged_fresh (fun _ _ _ _ _ _ staged move => staged.move move) member

theorem Reachable.balanced {w : World} (reachable : w.Reachable) {p : Participant}
    (member : p ∈ w.participants) : p.manager.Balanced := by
  have both : p.manager.Staged ∧ p.manager.Balanced := by
    refine reachable.manager (P := fun m => m.Staged ∧ m.Balanced) ?_ ?_ member
    · intro owner settings
      exact ⟨Manager.staged_fresh owner settings, Manager.balanced_fresh owner settings⟩
    · intro m s store m' b notes h move
      exact ⟨h.1.move move, h.2.move h.1 move⟩
  exact both.2

/-- As long as anybody keeps the queue of a manager, what is queued turns what its worker tracks into
    its registry. So names conflict exactly while they have an unreleased handle, commands find
    what they expect when they are taken, and giving a handle up once more, or after its name has got
    a newer one, changes nothing at all. -/
theorem registry_queue_slots_agree {w : World} (reachable : w.Reachable) {p : Participant}
    (member : p ∈ w.participants) (opened : p.manager.queueOpen = true) :
    p.manager.tracked.replay p.manager.queue = p.manager.registry.active
      ∧ (∀ name, (p.manager.createHandle name).1 = .error (.conflict name)
          ↔ ∃ h ∈ p.manager.handles, h.name = name ∧ h.released = false)
      ∧ (∀ name, (p.manager.createHandle name).1 = .error (.conflict name) →
          (p.manager.createHandle name).2.1 = p.manager)
      ∧ (∀ worker name id rest, p.manager.worker = some worker →
          p.manager.queue = .register name id :: rest → worker.slots.find? name = none)
      ∧ (∀ worker name id rest, p.manager.worker = some worker →
          p.manager.queue = .release name id :: rest →
            ∃ slot, worker.slots.find? name = some slot ∧ slot.id = id)
      ∧ ∀ h ∈ p.manager.handles,
          (h.released = true ∨ ∃ newer ∈ p.manager.handles, newer.name = h.name ∧ h.id < newer.id) →
            (p.manager.releaseHandle h.id).1 = p.manager
              ∧ (p.manager.unregister h.name h.id).1 = p.manager := by
  have balanced := reachable.balanced member
  have tracked {worker : Worker} (present : p.manager.worker = some worker) :
      p.manager.tracked = worker.slots.ledger := by simp [Manager.tracked, present]
  refine ⟨balanced.replayed opened, fun name => ?_, fun name conflict => ?_,
    fun worker name id rest present queue => ?_, fun worker name id rest present queue => ?_,
    fun h inside past => ?_⟩
  · rw [Manager.createHandle_conflict_iff opened, balanced.active_iff]
  · rw [Manager.createHandle_conflict_iff opened] at conflict
    rw [Manager.createHandle_of_taken opened conflict]
  · have admitted := balanced.admitted opened
    rw [tracked present, queue] at admitted
    exact Slots.find?_of_fits admitted.1
  · have admitted := balanced.admitted opened
    rw [tracked present, queue] at admitted
    have own : worker.slots.ledger.lookup name = some id := admitted.1
    rw [Slots.lookup_ledger] at own
    exact Option.map_eq_some_iff.mp own
  · have released : h.released = true := by
      rcases past with released | ⟨newer, there, same, later⟩
      · exact released
      · exact balanced.latest h inside newer there same.symm later
    refine ⟨?_, Manager.unregister_of_other (balanced.lookup_released inside released)⟩
    rw [Manager.releaseHandle_of_released]
    intro k found
    rw [balanced.handle?_eq inside] at found
    exact Option.some.inj found ▸ released

/-- A run in which a name is released and created anew while the worker still waits for the store to
    delete the row of the released handle. -/
def renewal : List Action :=
  .start 0 :: turn 0 (.attempt 0) 4 ++ .create 0 "x" :: turn 0 .worker 8
    ++ [.setLink 0 { otherDelay := 5 }, .release 0 0] ++ turn 0 .worker 3 ++ [.create 0 "x"]

theorem registry_queue_slots_agree_renewal : ∃ (w : World) (p : Participant) (worker : Worker),
    w.Reachable ∧ p ∈ w.participants ∧ p.manager.queueOpen = true ∧ p.manager.worker = some worker
      ∧ p.manager.queue = [.register "x" 1, .maintain none]
      ∧ worker.slots.find? "x" = none
      ∧ p.manager.tracked.replay p.manager.queue = p.manager.registry.active := by
  have reachable : World.Reachable _ :=
    ⟨(World.initial 0 [.freshMemory]).join "a" ⟨.ofMillis 8, true⟩ 0 {}, renewal,
      .join (.initial _ _) _ _ _ _, rfl⟩
  have agree := registry_queue_slots_agree reachable (List.mem_singleton.mpr rfl) rfl
  exact ⟨_, _, _, reachable, List.mem_singleton.mpr rfl, rfl, rfl, rfl,
    agree.2.2.2.1 _ "x" 1 _ rfl rfl, agree.1⟩

end World

end Leasehold
