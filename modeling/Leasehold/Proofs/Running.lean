import Leasehold.Proofs.Soundness

/-! # Worker and scheduler

A worker comes with a scheduler and has it until both are told to end. `Manager.Live` says what can
happen to the two as long as the worker is there. The scheduler waits for tickets only that the worker
will acknowledge: `Manager.Attended` follows every ticket from the queue to the end of its cycle.
-/

namespace Leasehold

namespace Manager

variable {m m' : Manager} {s : Surroundings} {store b : Backend} {notes : List Note}

/-- What happens to worker, scheduler and queue of a manager. -/
inductive Live (s : Surroundings) (store : Backend) (m m' : Manager) : Backend → List Note → Prop where
  /-- Worker and scheduler are new. -/
  | launch {b : Backend} {notes : List Note} {aborted : Bool} (new : m.worker = none)
      (worker : m'.worker = some { Worker.fresh with aborted })
      (scheduler : ∀ sc, m'.scheduler = some sc → sc.pacing = .requesting)
      (ready : m.settings.enabled = true → b.isReady = true) : Live s store m m' b notes
  | work {k r} (present : m.worker = some k) (step : k.Move s m.queue store r)
      (worker : m'.worker = some r.worker)
      (scheduler : m'.scheduler = m.scheduler.map (r.notes.foldl Scheduler.hear))
      (queue : m'.queue = r.queue) : Live s store m m' r.store r.notes
  | pace {sc next ticket} {notes : List Note} (present : m.scheduler = some sc)
      (step : sc.step s.now m.settings.interval = some (next, ticket))
      (worker : m'.worker = m.worker) (scheduler : m'.scheduler = some next)
      (queue : m'.queue = m.queue ++ (ticket.map fun t => Command.maintain (some t)).toList) :
      Live s store m m' store notes
  | aside {b : Backend} {notes : List Note} {k aborted} (present : m.worker = some k)
      (worker : m'.worker = some { k with aborted })
      (scheduler : ∀ sc', m'.scheduler = some sc' →
        ∃ sc, m.scheduler = some sc ∧ sc'.pacing = sc.pacing)
      (queue : ∃ more, m'.queue = m.queue ++ more) : Live s store m m' b notes
  /-- A worker goes only after the manager has been stopped. -/
  | gone {b : Backend} {notes : List Note} (worker : m'.worker = none)
      (stopped : m.worker.isSome = true → m'.lifecycle = .stopped) : Live s store m m' b notes

theorem Keeps.isSome_worker (keeps : m.Keeps m') : m'.worker.isSome = m.worker.isSome := by
  rcases keeps.worker with same | aborted
  · rw [same]
  · rw [aborted, Option.isSome_map]

theorem Keeps.live (keeps : m.Keeps m') : Live s store m m' b notes := by
  have still := keeps.isSome_worker
  cases worker : m'.worker with
  | none =>
    refine .gone worker fun there => ?_
    simp [worker, there] at still
  | some k' =>
    obtain ⟨k, aborted, present, rfl⟩ := keeps.worker_cases worker
    have queue := (keeps.opened (queueOpen_of_worker worker)).2
    exact .aside present worker keeps.scheduler ⟨[], by simp [queue]⟩

theorem live_of_same (same : m'.worker = m.worker) (scheduler : m'.scheduler = m.scheduler)
    (queue : ∃ more, m'.queue = m.queue ++ more) : Live s store m m' b notes := by
  cases worker : m'.worker with
  | none =>
    refine .gone worker fun there => ?_
    simp [← same, worker] at there
  | some k =>
    exact .aside (k := k) (same ▸ worker) worker
      (fun sc present => ⟨sc, scheduler ▸ present, rfl⟩) queue

theorem live_launched {m₀ : Manager} (new : m.worker = none) (worker : m₀.worker = some .fresh)
    (scheduler : m₀.scheduler = some .fresh) (keeps : m₀.Keeps m')
    (ready : m.settings.enabled = true → b.isReady = true) : Live s store m m' b notes := by
  obtain ⟨k, present⟩ := Option.isSome_iff_exists.mp (keeps.isSome_worker.trans (by simp [worker]))
  obtain ⟨k₀, aborted, fresh, rfl⟩ := keeps.worker_cases present
  rw [worker] at fresh
  cases fresh
  refine .launch new present (fun sc present => ?_) ready
  obtain ⟨sc₀, fresh, pacing⟩ := keeps.scheduler sc present
  rw [scheduler] at fresh
  cases fresh
  exact pacing

/-- What any move is to worker and scheduler. -/
theorem Move.live (move : m.Move s store m' b notes) (staged : m.Staged) (modest : m.Modest) :
    Live s store m m' b notes := by
  cases move with
  | create name =>
    obtain ⟨registry, handles, more, eq⟩ := m.createHandle_eq name
    rw [eq]
    exact live_of_same rfl rfl ⟨more, rfl⟩
  | release id =>
    obtain ⟨registry, handles, more, eq⟩ := m.releaseHandle_eq id
    rw [eq]
    exact live_of_same rfl rfl ⟨more, rfl⟩
  | stop => exact (keeps_stop m).live
  | abandon => exact (keeps_abandon m).live
  | beginStart id => exact (keeps_beginStart m id).live
  | beginListing id => exact (keeps_listings _).live
  | worker present step =>
    rw [publishAll_eq]
    exact .work present step rfl rfl rfl
  | request present step listened => exact .pace present step rfl rfl rfl
  | retire present step closed => exact keeps_withoutScheduler.live
  | pace present step => exact .pace present step rfl rfl (by simp)
  | refuse id e => exact (keeps_dropAttempt m id).live
  | enter idle enabled =>
    have none := staged.worker_none (.inl idle)
    exact .gone none (by simp [none])
  | enterAlone idle disabled =>
    rw [finishStart_of_starting rfl]
    exact live_launched (staged.worker_none (.inl idle)) rfl rfl (keeps_dropAttempt _ _)
      (by simp [disabled])
  | fail present called due e fields _ =>
    exact (keeps_failStart (queueOpen_of_attempt present (keepsQueue_of_call? called))).live
  | crash present comparing due answered overflows => exact (keeps_dropAttempt m _).live
  | compare present comparing due answered near =>
    exact (keeps_setStage (queueOpen_of_attempt present
      (keepsQueue_of_stage (by simp [comparing]))) fun stopped => stopped).live
  | @finish a call _ present preparing due answered =>
    by_cases starting : m.lifecycle = .starting
    · rw [finishStart_of_starting starting]
      refine live_launched (staged.worker_none (.inr starting)) rfl rfl (keeps_dropAttempt _ _)
        fun _ => ?_
      rw [(Call.finish_ok answered).2.1, modest.preparing a present call preparing]
      exact Backend.isReady_ensureSchema _ _
    · rw [finishStart_of_stopped starting]
      exact (keeps_dropAttempt m a.id).live
  | askListing id => exact (keeps_listings _).live
  | endListing present called due => exact (keeps_endListing m _).live
  | reapWorker present aborted =>
    obtain ⟨queue, eq⟩ := ({ m with worker := none } : Manager).dropQueue_eq
    have gone : (m.reap .worker).1 = { m with worker := none, queue } := eq
    rw [gone]
    exact .gone rfl fun _ => staged.stopped_of_worker present aborted
  | reapScheduler present aborted => exact keeps_withoutScheduler.live

end Manager

/-! ## Tickets -/

namespace Worker

variable {w : Worker} {s : Surroundings} {queue : List Command} {store : Backend}

/-- The batch that a worker keeps while it drains the queue or frees a lease in between. -/
def carried? (w : Worker) : Option Batch :=
  match w.activity with
  | .draining b => some b
  | .parting _ b => some b
  | .releasing r => some r.batch
  | _ => none

/-- The tickets that the worker has to acknowledge. -/
def tickets (w : Worker) : List Nat :=
  match w.activity with
  | .cycling c => c.tickets
  | _ => (w.carried?.map (·.tickets)).getD []

/-- A batch with tickets leads to a cycle. -/
def Honest (w : Worker) : Prop := ∀ b, w.carried? = some b → b.tickets ≠ [] → b.wanted = true

theorem honest_afterCommand {w : Worker} {b : Batch} (idle : w.activity = afterCommand b) :
    w.Honest := by
  intro b' carried tickets
  rcases afterCommand_cases b with eq | ⟨wanted, eq⟩
  · simp [carried?, idle, eq] at carried
  · obtain rfl : b = b' := by simpa [carried?, idle, eq] using carried
    exact wanted

theorem tickets_afterCommand {w : Worker} {b : Batch} (idle : w.activity = afterCommand b)
    (honest : b.tickets ≠ [] → b.wanted = true) : w.tickets = b.tickets := by
  rcases afterCommand_cases b with eq | ⟨wanted, eq⟩
  · have none : b.tickets = [] := by
      by_contra some
      simp [afterCommand, honest some] at eq
    simp [tickets, carried?, idle, eq, none]
  · simp [tickets, carried?, idle, eq]

theorem listening_carried {b : Batch} (honest : w.Honest) (listening : w.batch? = some b) :
    w.tickets = b.tickets ∧ (b.tickets ≠ [] → b.wanted = true) := by
  cases activity : w.activity with
  | waiting =>
    obtain rfl : Batch.empty = b := by simpa [batch?, activity] using listening
    exact ⟨by simp [tickets, carried?, activity, Batch.empty], by simp [Batch.empty]⟩
  | draining b' =>
    obtain rfl : b' = b := by simpa [batch?, activity] using listening
    exact ⟨by simp [tickets, carried?, activity], honest b' (by simp [carried?, activity])⟩
  | parting | releasing | cycling => simp [batch?, activity] at listening

theorem Honest.apply (honest : w.Honest) {c : Command} {b : Batch} (listening : w.batch? = some b) :
    (w.apply c b).1.Honest
      ∧ (w.apply c b).1.tickets = b.tickets ++ c.ticket?.toList := by
  obtain ⟨_, counts⟩ := listening_carried honest listening
  rcases w.apply_activity c b with ⟨idle, none⟩ | ⟨⟨name, parting, _⟩, none⟩ | ⟨ticket, rfl, draining⟩
  · exact ⟨honest_afterCommand idle, by simp [tickets_afterCommand idle counts, none]⟩
  · refine ⟨fun b' carried tickets => ?_, by simp [tickets, carried?, parting, none]⟩
    obtain rfl : b = b' := by simpa [carried?, parting] using carried
    exact counts tickets
  · refine ⟨fun b' carried _ => ?_, by simp [tickets, carried?, draining, Command.ticket?]⟩
    simp only [carried?, draining, Option.some.injEq] at carried
    rw [← carried]

theorem mem_acknowledge {tickets : List Nat} {t : Nat} (member : t ∈ tickets) :
    Note.acknowledged t ∈ acknowledge tickets := List.mem_map_of_mem member

/-- A cycle goes on in silence, or it ends and answers its tickets. -/
theorem resume_tells (w : Worker) (s : Surroundings) (c : Cycle) (reply : Reply) :
    (∃ stage call, (w.resume s c reply).1.activity = .cycling { c with stage, call })
        ∧ Beside (w.resume s c reply).2
      ∨ (w.resume s c reply).1.activity = .waiting ∧ ∃ others, Beside others
        ∧ (w.resume s c reply).2 = others ++ .cycleEnded true :: acknowledge c.tickets := by
  have purged (w : Worker) (names : List String) :
      (∃ stage call, (w.purge s c names).1.activity = .cycling { c with stage, call })
          ∧ Beside (w.purge s c names).2
        ∨ (w.purge s c names).1.activity = .waiting
          ∧ (w.purge s c names).2 = .cycleEnded true :: acknowledge c.tickets := by
    cases names with
    | nil => exact .inr ⟨rfl, rfl⟩
    | cons name rest => exact .inl ⟨⟨_, _, rfl⟩, by simp [Beside, purge, askNext, ask, Note.isService]⟩
  unfold resume
  split
  · refine .inl ⟨⟨_, _, rfl⟩, ?_⟩
    dsimp only
    split <;> simp [Beside, askNext, ask, Note.isService]
  · dsimp only
    split <;> exact .inl ⟨⟨_, _, rfl⟩, by simp [Beside, askNext, ask, Note.isService]⟩
  · exact .inl ⟨⟨_, _, rfl⟩, by simp [Beside, askNext, ask, Note.isService]⟩
  · rcases purged (w.reconcile s reply.nameList c.expiration).1 (w.orphans reply.nameList) with
      ⟨cycling, beside⟩ | ⟨waiting, ends⟩
    · exact .inl ⟨cycling, beside_append (remarks_reconcile _ _).beside beside⟩
    · exact .inr ⟨waiting, _, (remarks_reconcile reply.nameList c.expiration).beside,
        congrArg (List.append _) ends⟩
  · rcases purged w _ with goesOn | ⟨waiting, ends⟩
    · exact .inl goesOn
    · exact .inr ⟨waiting, [], by simp [Beside], ends⟩

theorem failCycle_tells (w : Worker) (s : Surroundings) (label : String) (c : Cycle) (e : LeaseError) :
    ∃ others, Beside others
      ∧ (w.failCycle s label c e).2 = others ++ .cycleEnded false :: acknowledge c.tickets :=
  ⟨_ :: (w.giveUp s).2, List.forall_mem_cons.mpr ⟨rfl, remarks_giveUp.beside⟩, rfl⟩

theorem resume_cases (w : Worker) (s : Surroundings) (c : Cycle) (reply : Reply) :
    (∃ stage call, (w.resume s c reply).1.activity = .cycling { c with stage, call })
      ∨ (w.resume s c reply).1.activity = .waiting
        ∧ ∀ t ∈ c.tickets, .acknowledged t ∈ (w.resume s c reply).2 := by
  refine (w.resume_tells s c reply).imp And.left fun ⟨waiting, others, _, ends⟩ => ⟨waiting, ?_⟩
  intro t member
  rw [ends]
  exact List.mem_append_right _ (List.mem_cons_of_mem _ (mem_acknowledge member))

theorem failCycle_acknowledges (w : Worker) (s : Surroundings) (label : String) (c : Cycle)
    (e : LeaseError) {t : Nat} (member : t ∈ c.tickets) :
    Note.acknowledged t ∈ (w.failCycle s label c e).2 := by
  obtain ⟨others, _, ends⟩ := w.failCycle_tells s label c e
  rw [ends]
  exact List.mem_append_right _ (List.mem_cons_of_mem _ (mem_acknowledge member))

/-- A ticket stays in the queue or with the worker until it is acknowledged. -/
theorem Move.tickets {r : WorkerStep} (move : w.Move s queue store r) (honest : w.Honest) :
    r.worker.Honest ∧ ∀ t ∈ queue.filterMap Command.ticket? ++ w.tickets,
      t ∈ r.queue.filterMap Command.ticket? ++ r.worker.tickets ∨ .acknowledged t ∈ r.notes := by
  have silent {w' : Worker} (waiting : w'.activity = .waiting) : w'.Honest :=
    honest_afterCommand (b := .empty) waiting
  have ended {c : Cycle} {w' : Worker} {queue : List Command} {notes : List Note}
      (cycling : w.activity = .cycling c)
      (told : ∀ t ∈ c.tickets, .acknowledged t ∈ notes) : ∀ t ∈ queue.filterMap Command.ticket?
        ++ w.tickets, t ∈ queue.filterMap Command.ticket? ++ w'.tickets ∨ .acknowledged t ∈ notes := by
    intro t pending
    rcases List.mem_append.mp pending with queued | kept
    · exact .inl (List.mem_append_left _ queued)
    · exact .inr (told t (by simpa [Worker.tickets, cycling] using kept))
  cases move with
  | @take c queue _ b listening =>
    obtain ⟨honest', tickets'⟩ := honest.apply (c := c) listening
    refine ⟨honest', fun t pending => .inl ?_⟩
    rw [tickets']
    rw [(listening_carried honest listening).1] at pending
    cases ticket : c.ticket? with
    | none => simpa [List.filterMap_cons, ticket] using pending
    | some t' =>
      simp only [List.filterMap_cons, ticket, List.cons_append, List.mem_cons, List.mem_append,
        Option.toList_some, List.not_mem_nil, or_false] at pending ⊢
      rcases pending with same | queued | kept
      · exact .inr (.inr same)
      · exact .inl queued
      · exact .inr (.inl kept)
  | beginCycle draining =>
    refine ⟨fun b' carried => ?_, fun t pending => .inl ?_⟩
    · cases carried
    · simpa [Worker.tickets, carried?, draining, Worker.beginCycle] using pending
  | @beginRelease _ _ name b parting =>
    refine ⟨fun b' carried => ?_, fun t pending => .inl ?_⟩
    · cases carried
      exact honest b (by simp [carried?, parting])
    · simpa [Worker.tickets, carried?, parting, Worker.beginRelease] using pending
  | @endRelease _ _ r releasing due =>
    have counts := honest r.batch (by simp [carried?, releasing])
    refine ⟨honest_afterCommand (b := r.batch) rfl, fun t pending => .inl ?_⟩
    rw [tickets_afterCommand (b := r.batch) rfl counts]
    simpa [Worker.tickets, carried?, releasing] using pending
  | @abandonRelease _ _ r releasing pending late =>
    have counts := honest r.batch (by simp [carried?, releasing])
    refine ⟨honest_afterCommand (b := r.batch) rfl, fun t pending => .inl ?_⟩
    rw [tickets_afterCommand (b := r.batch) rfl counts]
    simpa [Worker.tickets, carried?, releasing] using pending
  | @resume _ _ c reply cycling due answered =>
    rcases w.resume_cases s c reply with ⟨stage, call, cycling'⟩ | ⟨waiting, told⟩
    · refine ⟨fun b carried => by simp [carried?, cycling'] at carried, fun t pending => .inl ?_⟩
      simpa [Worker.tickets, cycling, cycling'] using pending
    · exact ⟨silent waiting, ended cycling fun t member => List.mem_append_right _ (told t member)⟩
  | @failCycle _ _ c e cycling due failed =>
    refine ⟨silent rfl, ended cycling fun t member => List.mem_append_right _ ?_⟩
    exact w.failCycle_acknowledges s _ c e member
  | @overrun _ _ c cycling pending late =>
    refine ⟨silent rfl, ended cycling fun t member => List.mem_cons_of_mem _ ?_⟩
    exact w.failCycle_acknowledges s _ c _ member

end Worker

namespace Scheduler

theorem ticket_of_step {sc next : Scheduler} {now t : Nat} {interval : Duration} {ticket : Option Nat}
    (step : sc.step now interval = some (next, ticket)) (waits : next.pacing = .awaiting t) :
    ticket = some t := by
  unfold Scheduler.step at step
  split at step
  · cases step
    cases waits
    rfl
  · simp at step
  · cases step
    cases waits
  · split at step
    · cases step
      cases waits
    · simp at step

theorem pacing_hear_of_other (sc : Scheduler) {notes : List Note}
    (other : ∀ t, sc.pacing = .awaiting t → .acknowledged t ∉ notes) :
    notes.foldl Scheduler.hear sc = sc := by
  induction notes with
  | nil => rfl
  | cons note notes ih =>
    have same : sc.hear note = sc := by
      cases note with
      | acknowledged ticket =>
        have ne : sc.pacing ≠ .awaiting ticket := fun waits => other ticket waits List.mem_cons_self
        simp [hear, acknowledge, ne]
      | _ => rfl
    rw [List.foldl_cons, same]
    exact ih fun t waits member => other t waits (List.mem_cons_of_mem _ member)

/-- A scheduler hears of the ticket that it waits for, or hears nothing. -/
theorem hear_cases (sc : Scheduler) (notes : List Note) : notes.foldl Scheduler.hear sc = sc
      ∧ (∀ t, sc.pacing = .awaiting t → .acknowledged t ∉ notes)
    ∨ (∃ t, sc.pacing = .awaiting t ∧ .acknowledged t ∈ notes)
      ∧ (notes.foldl Scheduler.hear sc).pacing = .acknowledged := by
  by_cases other : ∀ t, sc.pacing = .awaiting t → .acknowledged t ∉ notes
  · exact .inl ⟨sc.pacing_hear_of_other other, other⟩
  · push Not at other
    obtain ⟨t, waits, member⟩ := other
    refine .inr ⟨⟨t, waits, member⟩, ?_⟩
    induction notes with
    | nil => simp at member
    | cons note notes ih =>
      by_cases told : note = .acknowledged t
      · have heard : (sc.hear note).pacing = .acknowledged := by
          simp [told, hear, acknowledge, waits]
        rw [List.foldl_cons, pacing_hear_of_other _ fun t waits => by simp [heard] at waits]
        exact heard
      · have same : sc.hear note = sc := by
          cases note with
          | acknowledged ticket =>
            have ne : sc.pacing ≠ .awaiting ticket := by
              rw [waits]
              rintro ⟨⟩
              exact told rfl
            simp [hear, acknowledge, ne]
          | _ => rfl
        rw [List.foldl_cons, same]
        exact ih ((List.mem_cons.mp member).resolve_left (Ne.symm told))

end Scheduler

namespace Manager

variable {m m' : Manager} {s : Surroundings} {store b : Backend} {notes : List Note}

/-- The ticket that a scheduler waits for is on its way. -/
structure Attended (m : Manager) : Prop where
  honest : ∀ w, m.worker = some w → w.Honest
  awaited : ∀ w sc t, m.worker = some w → m.scheduler = some sc → sc.pacing = .awaiting t →
    t ∈ m.queue.filterMap Command.ticket? ++ w.tickets

theorem attended_of_none (none : m.worker = none) : m.Attended := by
  constructor <;> simp [none]

theorem Attended.move (h : m.Attended) (staged : m.Staged) (modest : m.Modest)
    (move : m.Move s store m' b notes) : m'.Attended := by
  cases move.live staged modest with
  | gone none _ => exact attended_of_none none
  | launch _ worker scheduler ready =>
    refine ⟨fun w present => ?_, fun w sc t _ present' waits => ?_⟩
    · rw [worker] at present
      cases present
      exact fun b carried => by cases carried
    · cases (scheduler sc present').symm.trans waits
  | @work k r present step worker scheduler queue =>
    obtain ⟨honest, pending⟩ := step.tickets (h.honest k present)
    refine ⟨fun w there => ?_, fun w sc t there there' waits => ?_⟩
    · rw [worker] at there
      exact Option.some.inj there ▸ honest
    · rw [worker] at there
      rw [scheduler] at there'
      obtain ⟨sc₀, present', rfl⟩ := Option.map_eq_some_iff.mp there'
      rw [queue, ← Option.some.inj there]
      rcases sc₀.hear_cases r.notes with ⟨same, other⟩ | ⟨_, heard⟩
      · rw [same] at waits
        have before := h.awaited k sc₀ t present present' waits
        exact (pending t before).resolve_right (other t waits)
      · cases heard.symm.trans waits
  | @pace sc₀ next ticket _ present step worker scheduler queue =>
    refine ⟨fun w there => h.honest w (worker ▸ there), fun w sc t there there' waits => ?_⟩
    rw [scheduler] at there'
    obtain rfl := Option.some.inj there'
    rw [queue, Scheduler.ticket_of_step step waits]
    simp [Command.ticket?]
  | @aside _ _ k aborted present worker scheduler queue =>
    obtain ⟨more, queue⟩ := queue
    refine ⟨fun w there => ?_, fun w sc t there there' waits => ?_⟩
    · rw [worker] at there
      cases there
      exact h.honest k present
    · rw [worker] at there
      cases there
      obtain ⟨sc₀, present', pacing⟩ := scheduler sc there'
      have before := h.awaited k sc₀ t present present' (pacing ▸ waits)
      rw [queue, List.filterMap_append]
      rcases List.mem_append.mp before with queued | kept
      · exact List.mem_append_left _ (List.mem_append_left _ queued)
      · exact List.mem_append_right _ kept

end Manager

end Leasehold
