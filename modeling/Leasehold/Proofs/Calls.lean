import Leasehold.Proofs.Notes

/-! # Everything but the worker

Attempts to start and listings ask the store for its time, for a table and for its rows: none of this
changes a row. `Manager.Aside` says what a manager's moves leave alone as long as its worker does not
step, and `Manager.Move.work_cases` that every other move is a step of the worker.
-/

namespace Leasehold

namespace Manager

variable {m m' : Manager} {s : Surroundings} {store : Backend} {b : Backend} {notes : List Note}

/-! ## Attempts and listings -/

/-- No attempt and no listing is new. -/
structure Fewer (m m' : Manager) : Prop where
  attempts : ∀ a ∈ m'.attempts, a ∈ m.attempts
  listings : ∀ l ∈ m'.listings, l ∈ m.listings

theorem fewer_of_same (attempts : m'.attempts = m.attempts) (listings : m'.listings = m.listings) :
    m.Fewer m' :=
  ⟨fun _ member => attempts ▸ member, fun _ member => listings ▸ member⟩

theorem Fewer.trans {m₁ m₂ m₃ : Manager} (last : m₂.Fewer m₃) (first : m₁.Fewer m₂) :
    m₁.Fewer m₃ where
  attempts a member := first.attempts a (last.attempts a member)
  listings l member := first.listings l (last.listings l member)

theorem fewer_dropQueue (m : Manager) : m.Fewer m.dropQueue := by
  obtain ⟨queue, eq⟩ := m.dropQueue_eq
  rw [eq]
  exact fewer_of_same rfl rfl

theorem fewer_dropIfUnused (m : Manager) : m.Fewer m.dropIfUnused := by
  rcases m.dropIfUnused_cases with eq | eq <;> rw [eq]
  · exact fewer_of_same rfl rfl
  · exact (fewer_dropQueue m.ended).trans (fewer_of_same rfl rfl)

theorem fewer_stop (m : Manager) : m.Fewer m.stop.1 := by
  rcases m.stop_cases with eq | ⟨_, eq⟩ <;> rw [eq]
  · exact (fewer_dropQueue m.ended).trans (fewer_of_same rfl rfl)
  · exact (fewer_dropQueue _).trans (fewer_of_same rfl rfl)

theorem fewer_dropAttempt (m : Manager) (id : Nat) : m.Fewer (m.dropAttempt id) := by
  refine ((fewer_dropIfUnused _).trans (fewer_dropQueue _)).trans ?_
  exact ⟨fun a member => (List.mem_filter.mp member).1, fun l member => member⟩

theorem fewer_endListing (m : Manager) (id : Nat) : m.Fewer (m.endListing id) := by
  refine (fewer_dropIfUnused _).trans ?_
  exact ⟨fun a member => member, fun l member => (List.mem_filter.mp member).1⟩

theorem failStart_eq (m : Manager) (id : Nat) (e : LeaseError) : ∃ lifecycle,
    (m.failStart id e).1 = ({ m with lifecycle } : Manager).dropAttempt id := by
  unfold failStart
  split
  · exact ⟨_, rfl⟩
  · exact ⟨_, rfl⟩

theorem finishStart_eq (m : Manager) (label : String) (id : Nat) :
    ∃ lifecycle worker scheduler, (worker = m.worker ∨ worker = some .fresh)
      ∧ (m.finishStart label id).1
        = ({ m with lifecycle, worker, scheduler } : Manager).dropAttempt id := by
  by_cases starting : m.lifecycle = .starting
  · exact ⟨_, _, _, .inr rfl, finishStart_of_starting starting⟩
  · refine ⟨m.lifecycle, m.worker, m.scheduler, .inl rfl, ?_⟩
    rw [finishStart_of_stopped starting, endAttempt]

theorem fewer_failStart (m : Manager) (id : Nat) (e : LeaseError) : m.Fewer (m.failStart id e).1 := by
  obtain ⟨lifecycle, eq⟩ := m.failStart_eq id e
  rw [eq]
  exact (fewer_dropAttempt _ id).trans (fewer_of_same rfl rfl)

theorem fewer_finishStart (m : Manager) (label : String) (id : Nat) :
    m.Fewer (m.finishStart label id).1 := by
  obtain ⟨lifecycle, worker, scheduler, _, eq⟩ := m.finishStart_eq label id
  rw [eq]
  exact (fewer_dropAttempt _ id).trans (fewer_of_same rfl rfl)

/-- An attempt to start asks for nothing, for the store's time, or for a table; a listing asks for
    nothing or for the rows. -/
structure Asking (s : Surroundings) (m m' : Manager) : Prop where
  attempts : ∀ a ∈ m'.attempts, a ∈ m.attempts ∨ a.stage = .fresh
    ∨ a.stage = .comparing (Call.place s.link s.now .referenceTime)
    ∨ a.stage = .preparing (Call.place s.link s.now .ensureSchema)
  listings : ∀ l ∈ m'.listings, l ∈ m.listings ∨ l.call = none
    ∨ l.call = some (Call.place s.link s.now .listAll)

theorem Fewer.asking (fewer : m.Fewer m') : Asking s m m' :=
  ⟨fun a member => .inl (fewer.attempts a member), fun l member => .inl (fewer.listings l member)⟩

theorem asking_setStage (lifecycle : Lifecycle) (id : Nat) {stage : AttemptStage}
    (asks : stage = .comparing (Call.place s.link s.now .referenceTime)
      ∨ stage = .preparing (Call.place s.link s.now .ensureSchema)) :
    Asking s m (({ m with lifecycle } : Manager).setStage id stage) := by
  refine ⟨fun a member => ?_, fun l member => .inl member⟩
  rcases mem_setStage member with ⟨_, rfl⟩ | ⟨_, old⟩
  · exact .inr (.inr asks)
  · exact .inl old

theorem Move.asking (move : m.Move s store m' b notes) : Asking s m m' := by
  cases move with
  | create name =>
    obtain ⟨registry, handles, queue, eq⟩ := m.createHandle_eq name
    rw [eq]
    exact Fewer.asking (fewer_of_same rfl rfl)
  | release id =>
    obtain ⟨registry, handles, queue, eq⟩ := m.releaseHandle_eq id
    rw [eq]
    exact Fewer.asking (fewer_of_same rfl rfl)
  | stop => exact (fewer_stop m).asking
  | abandon =>
    have fewer := fewer_dropIfUnused { m with referenced := false }
    exact Fewer.asking (fewer.trans (fewer_of_same rfl rfl))
  | beginStart id =>
    refine ⟨fun a member => ?_, fun l member => .inl member⟩
    rcases List.mem_append.mp member with old | new
    · exact .inl old
    · rw [List.mem_singleton.mp new]
      exact .inr (.inl rfl)
  | beginListing id =>
    refine ⟨fun a member => .inl member, fun l member => ?_⟩
    rcases List.mem_append.mp member with old | new
    · exact .inl old
    · rw [List.mem_singleton.mp new]
      exact .inr (.inl rfl)
  | worker present move =>
    rw [publishAll_eq]
    exact Fewer.asking (fewer_of_same rfl rfl)
  | request | retire | pace | reapScheduler => exact Fewer.asking (fewer_of_same rfl rfl)
  | refuse id e => exact (fewer_dropAttempt m id).asking
  | enter idle enabled => exact asking_setStage .starting _ (.inl rfl)
  | @enterAlone id fields idle disabled =>
    have fewer := fewer_finishStart { m with lifecycle := .starting } store.label id
    exact Fewer.asking (fewer.trans (fewer_of_same rfl rfl))
  | fail present called due e fields _ => exact (fewer_failStart m _ e).asking
  | crash present comparing due answered overflows => exact (fewer_dropAttempt m _).asking
  | compare present comparing due answered near => exact asking_setStage m.lifecycle _ (.inr rfl)
  | finish present preparing due answered => exact (fewer_finishStart m _ _).asking
  | askListing id =>
    refine ⟨fun a member => .inl member, fun l member => ?_⟩
    obtain ⟨l', inside, rfl⟩ := List.mem_map.mp member
    by_cases own : l'.id = id
    · exact .inr (.inr (by simp [own]))
    · exact .inl (by simpa [own] using inside)
  | endListing present called due => exact (fewer_endListing m _).asking
  | reapWorker present aborted =>
    have fewer := fewer_dropQueue { m with worker := none }
    exact Fewer.asking (fewer.trans (fewer_of_same rfl rfl))

/-- A call of an attempt to start or of a listing. -/
def Awaits (m : Manager) (call : Call) : Prop :=
  (∃ a ∈ m.attempts, a.call? = some call) ∨ ∃ l ∈ m.listings, l.call = some call

/-- The attempts to start and the listings ask for what they should. -/
structure Modest (m : Manager) : Prop where
  comparing : ∀ a ∈ m.attempts, ∀ call, a.stage = .comparing call → call.request = .referenceTime
  preparing : ∀ a ∈ m.attempts, ∀ call, a.stage = .preparing call → call.request = .ensureSchema
  listing : ∀ l ∈ m.listings, ∀ call, l.call = some call → call.request = .listAll

theorem modest_fresh (owner : String) (settings : Settings) : (fresh owner settings).Modest := by
  constructor <;> simp [fresh]

theorem Modest.move (h : m.Modest) (move : m.Move s store m' b notes) : m'.Modest where
  comparing a member call stage := by
    rcases move.asking.attempts a member with old | fresh | comparing | preparing
    · exact h.comparing a old call stage
    · simp [fresh] at stage
    · rw [comparing] at stage
      cases stage
      rfl
    · simp [preparing] at stage
  preparing a member call stage := by
    rcases move.asking.attempts a member with old | fresh | comparing | preparing
    · exact h.preparing a old call stage
    · simp [fresh] at stage
    · simp [comparing] at stage
    · rw [preparing] at stage
      cases stage
      rfl
  listing l member call called := by
    rcases move.asking.listings l member with old | none | asking
    · exact h.listing l old call called
    · simp [none] at called
    · rw [asking] at called
      cases called
      rfl

theorem Modest.request (h : m.Modest) {call : Call} (awaits : m.Awaits call) :
    call.request = .referenceTime ∨ call.request = .ensureSchema ∨ call.request = .listAll := by
  rcases awaits with ⟨a, member, called⟩ | ⟨l, member, called⟩
  · cases stage : a.stage with
    | fresh => simp [Attempt.call?, stage] at called
    | comparing c =>
      obtain rfl : c = call := by simpa [Attempt.call?, stage] using called
      exact .inl (h.comparing a member c stage)
    | preparing c =>
      obtain rfl : c = call := by simpa [Attempt.call?, stage] using called
      exact .inr (.inl (h.preparing a member c stage))
  · exact .inr (.inr (h.listing l member call called))

theorem Modest.effect (h : m.Modest) {call : Call} (awaits : m.Awaits call) (held : Holdings) :
    call.request.effect held = held := by
  rcases h.request awaits with eq | eq | eq <;> rw [eq] <;> rfl

/-! ## Moves beside the worker -/

/-- What a move leaves alone that is not a step of the worker: slots, rows, and flags of handles. -/
structure Aside (s : Surroundings) (store : Backend) (m m' : Manager) (b : Backend)
    (notes : List Note) : Prop where
  owner : m'.owner = m.owner
  settings : m'.settings = m.settings
  worker : ∀ w', m'.worker = some w' →
    ∃ w aborted, (m.worker = some w ∨ w = .fresh) ∧ w' = { w with aborted }
  store : b = store ∨ ∃ call caller, m.Awaits call ∧ call.isDue s.now = true
    ∧ b = (call.finish caller s.trueTime store).2.1
  aloof : Aloof notes

theorem Aside.quiet (aside : Aside s store m m' b notes) : eventsIn notes = [] :=
  aside.aloof.eventsIn

theorem Keeps.worker_cases (keeps : m.Keeps m') {w' : Worker} (present : m'.worker = some w') :
    ∃ w aborted, m.worker = some w ∧ w' = { w with aborted } := by
  rcases keeps.worker with same | aborted
  · exact ⟨w', w'.aborted, same ▸ present, rfl⟩
  · rw [present] at aborted
    obtain ⟨w, there, rfl⟩ := Option.map_eq_some_iff.mp aborted.symm
    exact ⟨w, true, there, rfl⟩

theorem Keeps.aside (keeps : m.Keeps m') (unchanged : b = store ∨ ∃ call caller, m.Awaits call
      ∧ call.isDue s.now = true ∧ b = (call.finish caller s.trueTime store).2.1)
    (aloof : Aloof notes) : Aside s store m m' b notes where
  owner := keeps.owner
  settings := keeps.settings
  worker w' present := by
    obtain ⟨w, aborted, there, eq⟩ := keeps.worker_cases present
    exact ⟨w, aborted, .inl there, eq⟩
  store := unchanged
  aloof := aloof

theorem aside_finishStart (label : String) (id : Nat) (unchanged : b = store ∨ ∃ call caller,
      m.Awaits call ∧ call.isDue s.now = true ∧ b = (call.finish caller s.trueTime store).2.1)
    (aloof : Aloof notes) : Aside s store m (m.finishStart label id).1 b notes := by
  obtain ⟨lifecycle, worker, scheduler, launched, eq⟩ := m.finishStart_eq label id
  have keeps := keeps_dropAttempt { m with lifecycle, worker, scheduler } id
  rw [eq]
  refine ⟨keeps.owner, keeps.settings, fun w' present => ?_, unchanged, aloof⟩
  obtain ⟨w, aborted, there, eq⟩ := keeps.worker_cases present
  change worker = some w at there
  rcases launched with same | new
  · exact ⟨w, aborted, .inl (same ▸ there), eq⟩
  · rw [new] at there
    exact ⟨w, aborted, .inr (Option.some.inj there).symm, eq⟩

theorem aloof_send (m : Manager) (c : Command) : Aloof (m.send c).2 := by
  cases opened : m.queueOpen with
  | true => simp [send_of_open opened, Aloof]
  | false =>
    rw [send_of_closed opened]
    exact (idle_log _ _ _).aloof

theorem aloof_createHandle (m : Manager) (name : String) : Aloof (m.createHandle name).2.2 := by
  cases opened : m.queueOpen with
  | false => simp [createHandle_of_closed opened, Aloof]
  | true =>
    cases taken : m.registry.active.lookup name with
    | none =>
      rw [createHandle_of_free opened taken]
      simp [Aloof, Note.isWork]
    | some id =>
      rw [createHandle_of_taken opened (by simp [taken])]
      simp [Aloof]

theorem aloof_releaseHandle (m : Manager) (id : Nat) : Aloof (m.releaseHandle id).2 := by
  unfold releaseHandle
  split
  · simp [Aloof]
  · split
    · simp [Aloof]
    · unfold unregister
      split
      · exact aloof_send _ _
      · exact (idle_log _ _ _).aloof

theorem idle_stop (m : Manager) : Idle m.stop.2 := by
  by_cases running : m.lifecycle = .running <;> simp [stop, running, Idle, Note.isWork]

theorem idle_endAttempt (m : Manager) (id : Nat) (result : Except LeaseError Unit) :
    Idle (m.endAttempt id result).2 := by
  simp [endAttempt, Idle, Note.isWork]

theorem idle_finishStart (m : Manager) (label : String) (id : Nat) :
    Idle (m.finishStart label id).2 := by
  unfold finishStart
  split
  · exact idle_append (idle_log _ _ _) (idle_endAttempt _ _ _)
  · exact idle_endAttempt _ _ _

/-- Every move is a step of the worker, or leaves the worker's matters alone. -/
theorem Move.work_cases (move : m.Move s store m' b notes) :
    (∃ w r, m.worker = some w ∧ w.Move s m.queue store r
      ∧ m' = ({ m with worker := some r.worker, queue := r.queue }).publishAll r.notes
      ∧ b = r.store ∧ notes = r.notes) ∨ Aside s store m m' b notes := by
  have called {a : Attempt} {call : Call} (present : a ∈ m.attempts) (called : a.call? = some call)
      (due : call.isDue s.now = true) : ∃ call' caller, m.Awaits call' ∧ call'.isDue s.now = true
        ∧ (call.finish (.attempt a.id) s.trueTime store).2.1
          = (call'.finish caller s.trueTime store).2.1 :=
    ⟨call, .attempt a.id, .inl ⟨a, present, called⟩, due, rfl⟩
  have after (c : Call) {caller : Caller} (other : caller ≠ .worker) {notes : List Note}
      (idle : Idle notes) : Aloof ((c.finish caller s.trueTime store).2.2 ++ notes) :=
    (idle_append (idle_finish c other s.trueTime store) idle).aloof
  cases move with
  | create name =>
    obtain ⟨registry, handles, queue, eq⟩ := m.createHandle_eq name
    refine .inr ⟨?_, ?_, fun w' present => ?_, .inl rfl, m.aloof_createHandle name⟩
    · rw [eq]
    · rw [eq]
    · rw [eq] at present
      exact ⟨w', w'.aborted, .inl present, rfl⟩
  | release id =>
    obtain ⟨registry, handles, queue, eq⟩ := m.releaseHandle_eq id
    refine .inr ⟨?_, ?_, fun w' present => ?_, .inl rfl, m.aloof_releaseHandle id⟩
    · rw [eq]
    · rw [eq]
    · rw [eq] at present
      exact ⟨w', w'.aborted, .inl present, rfl⟩
  | stop =>
    exact .inr (Keeps.aside (keeps_stop m) (.inl rfl) m.idle_stop.aloof)
  | abandon => exact .inr (Keeps.aside (keeps_abandon m) (.inl rfl) (by simp [Aloof]))
  | beginStart id => exact .inr (Keeps.aside (keeps_beginStart m id) (.inl rfl) (by simp [Aloof]))
  | beginListing id => exact .inr (Keeps.aside (keeps_listings _) (.inl rfl) (by simp [Aloof]))
  | @worker w r present move => exact .inl ⟨w, r, present, move, rfl, rfl, rfl⟩
  | request present step listened =>
    exact .inr ⟨rfl, rfl, fun w' there => ⟨w', w'.aborted, .inl there, rfl⟩, .inl rfl,
      by simp [Aloof]⟩
  | retire present step closed =>
    exact .inr (Keeps.aside keeps_withoutScheduler (.inl rfl) (idle_log _ _ _).aloof)
  | pace present step =>
    exact .inr ⟨rfl, rfl, fun w' there => ⟨w', w'.aborted, .inl there, rfl⟩, .inl rfl,
      by simp [Aloof]⟩
  | refuse id e =>
    exact .inr (Keeps.aside (keeps_dropAttempt m id) (.inl rfl) (idle_endAttempt m id _).aloof)
  | enter idle enabled =>
    refine .inr (Keeps.aside (keeps_setStage (queueOpen_iff.mpr (.inl idle)) ?_) (.inl rfl)
      (by simp [Aloof, Note.isWork]))
    intro stopped
    simp [idle] at stopped
  | @enterAlone id fields idle disabled =>
    have quiet := idle_finishStart { m with lifecycle := .starting } store.label id
    have aside : Aside s store { m with lifecycle := .starting } _ store _ :=
      aside_finishStart store.label id (.inl rfl) quiet.aloof
    exact .inr ⟨aside.owner, aside.settings, aside.worker, .inl rfl,
      (idle_append (idle_log _ _ _) quiet).aloof⟩
  | @fail a _ _ present called' due e fields notes_eq =>
    refine .inr (Keeps.aside (keeps_failStart (queueOpen_of_attempt present
      (keepsQueue_of_call? called'))) (.inr (called present called' due))
      (after _ Caller.noConfusion ?_))
    have ended : Idle (m.failStart a.id e).2 := idle_endAttempt _ _ _
    rcases notes_eq with rfl | rfl
    · exact ended
    · exact idle_append (idle_log _ _ _) ended
  | crash present comparing due answered overflows =>
    exact .inr (Keeps.aside (keeps_dropAttempt m _)
      (.inr (called present (by simp [Attempt.call?, comparing]) due))
      (after _ Caller.noConfusion (by simp [crashStart, Idle, Note.isWork])))
  | compare present comparing due answered near =>
    refine .inr (Keeps.aside (keeps_setStage (queueOpen_of_attempt present
      (keepsQueue_of_stage (by simp [comparing]))) fun stopped => stopped)
      (.inr (called present (by simp [Attempt.call?, comparing]) due))
      (after _ Caller.noConfusion (by simp [Idle, Note.isWork])))
  | finish present preparing due answered =>
    exact .inr (aside_finishStart _ _ (.inr (called present (by simp [Attempt.call?, preparing]) due))
      (after _ Caller.noConfusion (idle_finishStart m _ _)))
  | askListing id =>
    exact .inr (Keeps.aside (keeps_listings _) (.inl rfl) (by simp [Aloof, Note.isWork]))
  | @endListing l call present called' due =>
    exact .inr (Keeps.aside (keeps_endListing m l.id)
      (.inr ⟨call, .listing l.id, .inr ⟨l, present, called'⟩, due, rfl⟩)
      (after _ Caller.noConfusion (by simp [Idle, Note.isWork])))
  | @reapWorker w present aborted =>
    refine .inr ⟨?_, ?_, fun w' there => ?_, .inl rfl, ?_⟩
    · exact (keeps_dropQueue { m with worker := none }).owner
    · exact (keeps_dropQueue { m with worker := none }).settings
    · obtain ⟨w, aborted, gone, eq⟩ :=
        (keeps_dropQueue { m with worker := none }).worker_cases there
      simp at gone
    · intro n member
      obtain ⟨c, _, rfl⟩ := List.mem_map.mp member
      simp [Note.isWork]
  | reapScheduler present aborted =>
    exact .inr (Keeps.aside keeps_withoutScheduler (.inl rfl) (by simp [Aloof]))

/-- What is true of a new worker and kept by every step of one stays true of the manager's worker. -/
theorem Move.worker_keeps {P : Worker → Prop} (move : m.Move s store m' b notes)
    (fresh : ∀ aborted, P { Worker.fresh with aborted })
    (abort : ∀ w aborted, P w → P { w with aborted })
    (step : ∀ w r, m.worker = some w → w.Move s m.queue store r → P w → P r.worker)
    (before : ∀ w, m.worker = some w → P w) {k : Worker} (present : m'.worker = some k) : P k := by
  rcases move.work_cases with ⟨w, r, there, stepped, rfl, _, _⟩ | aside
  · rw [publishAll_eq] at present
    cases present
    exact step w r there stepped (before w there)
  · obtain ⟨w, aborted, origin, rfl⟩ := aside.worker k present
    rcases origin with there | rfl
    · exact abort w aborted (before w there)
    · exact fresh aborted

end Manager

end Leasehold
