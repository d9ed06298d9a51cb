import Leasehold.Proofs.Deadlines
import Leasehold.Proofs.Desk

/-! # The worker's queue

A worker and its queue are a desk (`Worker.desk`), and every step of the worker is what may be done at one
(`Worker.Move.reads`). So however commands come in, even while the worker waits for its store,
nothing is lost and no cycle is wasted: `Worker.Coalesces`.
-/

namespace Leasehold

open Command (Asked Kicked)

theorem Ledger.registered_of_replay {l : Ledger} {queue : List Command} {e : String × Nat}
    (member : e ∈ l.replay queue) : e ∈ l ∨ .register e.1 e.2 ∈ queue := by
  induction queue generalizing l with
  | nil => exact .inl member
  | cons c queue ih =>
    rcases ih member with tracked | later
    · rcases Ledger.mem_post tracked with old | rfl
      · exact .inl old
      · exact .inr List.mem_cons_self
    · exact .inr (List.mem_cons_of_mem c later)

theorem Command.Kicked.later {before later : List Command} {name : String} {id : Nat}
    (kicked : Kicked (before ++ .register name id :: later)) : Asked later := by
  induction before with
  | nil => exact kicked.1 (by simp [Command.newcomer?])
  | cons c before ih => exact ih kicked.2

/-! ## A worker at its desk -/

/-- Whether a batch leads to a cycle. -/
def Batch.phase (b : Batch) : Desk.Phase := if b.wanted then .asked else .idle

theorem Batch.phase_ne_cycling (b : Batch) : b.phase ≠ .cycling := by
  unfold Batch.phase
  split <;> simp

namespace Worker

variable {w : Worker} {s : Surroundings} {queue : List Command} {store : Backend} {r : WorkerStep}
  {past : List Note}

def phase (w : Worker) : Desk.Phase :=
  match w.activity with
  | .waiting => .idle
  | .draining b | .parting _ b => b.phase
  | .releasing r => r.batch.phase
  | .cycling _ => .cycling

/-- A worker and its queue, without anything that is not about commands, cycles and tickets. -/
def desk (w : Worker) (queue : List Command) : Desk := ⟨queue, w.tickets, w.phase⟩

/-- The queue is drained for a cycle only. -/
def Driven (w : Worker) : Prop := ∀ b, w.activity = .draining b → b.wanted = true

theorem phase_afterCommand {b : Batch} (idle : w.activity = afterCommand b) : w.phase = b.phase := by
  rcases afterCommand_cases b with waiting | ⟨wanted, draining⟩
  · have none : b.wanted = false := by
      by_contra some
      simp [afterCommand, some] at waiting
    simp [phase, idle, waiting, Batch.phase, none]
  · simp [phase, idle, draining]

theorem driven_afterCommand {b : Batch} (idle : w.activity = afterCommand b) : w.Driven := by
  intro b' draining
  rcases afterCommand_cases b with waiting | ⟨wanted, draining'⟩
  · cases (idle.symm.trans draining).symm.trans waiting
  · cases (idle.symm.trans draining).symm.trans draining'
    exact wanted

theorem phase_listening {b : Batch} (listening : w.batch? = some b) : w.phase = b.phase := by
  cases activity : w.activity with
  | waiting =>
    obtain rfl : Batch.empty = b := by simpa [batch?, activity] using listening
    simp [phase, activity, Batch.phase, Batch.empty]
  | draining b' =>
    obtain rfl : b' = b := by simpa [batch?, activity] using listening
    simp [phase, activity]
  | parting | releasing | cycling => simp [batch?, activity] at listening

theorem phase_apply {c : Command} (plain : ∀ ticket, c ≠ .maintain ticket) (b : Batch) :
    (w.apply c b).1.phase = b.phase := by
  rcases w.apply_activity c b with ⟨idle, _⟩ | ⟨⟨name, parting, _⟩, _⟩ | ⟨ticket, maintain, _⟩
  · exact phase_afterCommand idle
  · simp [phase, parting]
  · exact absurd maintain (plain ticket)

theorem Move.driven (move : w.Move s queue store r) : r.worker.Driven := by
  have other {w' : Worker} (other : ∀ b, w'.activity ≠ .draining b) : w'.Driven :=
    fun b draining => absurd draining (other b)
  cases move with
  | @take c _ _ b listening =>
    rcases w.apply_activity c b with ⟨idle, _⟩ | ⟨⟨name, parting, _⟩, _⟩ | ⟨ticket, _, draining⟩
    · exact driven_afterCommand idle
    · exact other (by simp [parting])
    · intro b' draining'
      cases draining.symm.trans draining'
      rfl
  | beginCycle | beginRelease | failCycle | overrun => exact other (fun b draining => by cases draining)
  | @endRelease _ _ r releasing due => exact driven_afterCommand (b := r.batch) rfl
  | @abandonRelease _ _ r releasing pending late => exact driven_afterCommand (b := r.batch) rfl
  | @resume _ _ c reply cycling due answered =>
    rcases w.resume_cases s c reply with ⟨stage, call, cycling'⟩ | ⟨waiting, _⟩
    · exact other (by simp [cycling'])
    · exact other (by simp [waiting])

theorem reads_take {c : Command} {b : Batch} (honest : w.Honest) (listening : w.batch? = some b) :
    (w.desk (c :: queue)).Reads (.applied c :: (w.apply c b).2) ((w.apply c b).1.desk queue) := by
  obtain ⟨tickets, _⟩ := listening_carried honest listening
  obtain ⟨_, tickets'⟩ := honest.apply (c := c) listening
  have takes : (w.desk (c :: queue)).Takes (.applied c) ((w.apply c b).1.desk queue) := by
    rw [desk, desk, tickets, tickets', phase_listening listening]
    cases c with
    | maintain ticket => exact .ask ticket queue b.tickets b.phase b.phase_ne_cycling
    | register | release =>
      rw [phase_apply (by simp)]
      change Desk.Takes _ _ ⟨queue, b.tickets ++ [], b.phase⟩
      rw [List.append_nil]
      exact .post _ queue b.tickets b.phase b.phase_ne_cycling (by simp)
  exact takes.reads.append (Desk.reads_beside _ (remarks_apply c b).beside)

variable {w' : Worker} {notes : List Note}

theorem reads_release {c : Releasing} (honest : w.Honest) (releasing : w.activity = .releasing c)
    (idle : w'.activity = afterCommand c.batch) (beside : Beside notes) :
    (w.desk queue).Reads notes (w'.desk queue) := by
  have same : w'.desk queue = w.desk queue := by
    have tickets := tickets_afterCommand idle (honest c.batch (by simp [carried?, releasing]))
    rw [desk, desk, tickets, phase_afterCommand idle]
    simp [phase, Worker.tickets, carried?, releasing]
  rw [same]
  exact Desk.reads_beside _ beside

theorem reads_cycle {c : Cycle} (cycling : w.activity = .cycling c) (waiting : w'.activity = .waiting)
    (beside : Beside notes) (succeeded : Bool) : (w.desk queue).Reads
      (notes ++ .cycleEnded succeeded :: acknowledge c.tickets) (w'.desk queue) := by
  have before : w.desk queue = ⟨queue, c.tickets, .cycling⟩ := by
    simp [desk, phase, Worker.tickets, cycling]
  have after : w'.desk queue = ⟨queue, [], .idle⟩ := by
    simp [desk, phase, Worker.tickets, carried?, waiting]
  have ends := (Desk.Takes.finish queue c.tickets succeeded).reads
  rw [before, after]
  exact (Desk.reads_beside _ beside).append (ends.append (Desk.reads_acknowledge queue c.tickets))

/-- Every step of a worker is what may be done at its desk. -/
theorem Move.reads (move : w.Move s queue store r) (honest : w.Honest) (driven : w.Driven) :
    (w.desk queue).Reads r.notes (r.worker.desk r.queue) := by
  cases move with
  | take listening => exact reads_take honest listening
  | @beginCycle store b draining =>
    have before : w.desk [] = ⟨[], b.tickets, .asked⟩ := by
      simp [desk, phase, Worker.tickets, carried?, draining, Batch.phase, driven b draining]
    rw [before]
    exact (Desk.Takes.begin b.tickets).reads.append
      (Desk.reads_beside _ (by simp [Beside, Note.isService]))
  | @beginRelease queue store name b parting =>
    have same : (w.beginRelease s name b).1.desk queue = w.desk queue := by
      simp [desk, phase, Worker.tickets, carried?, parting, Worker.beginRelease]
    rw [same]
    exact Desk.reads_beside _ (by simp [Beside, Worker.beginRelease, ask, Note.isService])
  | endRelease releasing due =>
    exact reads_release honest releasing rfl
      (beside_append (beside_finish _ _ _ _) (remarks_endRelease _ _).beside)
  | abandonRelease releasing pending late =>
    exact reads_release honest releasing rfl
      (beside_append (by simp [Beside, Note.isService]) remarks_giveUp.beside)
  | @resume queue _ c reply cycling due answered =>
    rcases w.resume_tells s c reply with ⟨⟨stage, call, cycling'⟩, beside⟩
      | ⟨waiting, others, beside, ends⟩
    · have same : (w.resume s c reply).1.desk queue = w.desk queue := by
        simp [desk, phase, Worker.tickets, cycling, cycling']
      rw [same]
      exact Desk.reads_beside _ (beside_append (beside_finish _ _ _ _) beside)
    · rw [ends, ← List.append_assoc]
      exact reads_cycle cycling waiting (beside_append (beside_finish _ _ _ _) beside) true
  | @failCycle queue _ c e cycling due failed =>
    obtain ⟨others, beside, ends⟩ := w.failCycle_tells s store.label c e
    rw [ends, ← List.append_assoc]
    exact reads_cycle cycling rfl (beside_append (beside_finish _ _ _ _) beside) false
  | @overrun queue _ c cycling pending late =>
    obtain ⟨others, beside, ends⟩ := w.failCycle_tells s store.label c (overdue c)
    rw [ends]
    exact reads_cycle cycling rfl (List.forall_mem_cons.mpr ⟨rfl, beside⟩) false

/-! ## How much is left to do -/

/-- The order in which a worker goes on once it has taken what is queued, backwards. -/
def rank (w : Worker) : Nat :=
  match w.activity with
  | .waiting => 0
  | .cycling _ => 1
  | .draining _ => 2
  | .releasing _ => 3
  | .parting _ _ => 4

/-- What is left to do if no more commands come in: commands first, then what the worker is doing. -/
def left (w : Worker) (queue : List Command) : Nat ×ₗ Nat ×ₗ Nat ×ₗ Nat :=
  toLex (queue.length, toLex (w.rank, w.activity.ahead))

theorem rank_afterCommand {b : Batch} (idle : w.activity = afterCommand b) : w.rank ≤ 2 := by
  rcases idle_afterCommand b with eq | ⟨_, eq⟩ <;> simp [rank, idle, eq]

/-- Every step leaves less to do. -/
theorem Move.left_lt (move : w.Move s queue store r) : r.worker.left r.queue < w.left queue := by
  have lower {w' : Worker} {queue : List Command} (less : w'.rank < w.rank) :
      w'.left queue < w.left queue :=
    Prod.Lex.toLex_lt_toLex.mpr (.inr ⟨rfl, Prod.Lex.toLex_lt_toLex.mpr (.inl less)⟩)
  cases move with
  | take listening => exact Prod.Lex.toLex_lt_toLex.mpr (.inl (Nat.lt_succ_self _))
  | beginCycle draining => exact lower (by simp [rank, draining, Worker.beginCycle])
  | beginRelease parting => exact lower (by simp [rank, parting, Worker.beginRelease])
  | @endRelease _ _ r releasing due =>
    have before : w.rank = 3 := by simp [rank, releasing]
    exact lower (before ▸ Nat.lt_succ_of_le (rank_afterCommand (b := r.batch) rfl))
  | @abandonRelease _ _ r releasing pending late =>
    have before : w.rank = 3 := by simp [rank, releasing]
    exact lower (before ▸ Nat.lt_succ_of_le (rank_afterCommand (b := r.batch) rfl))
  | @resume queue _ c reply cycling due answered =>
    rcases w.resume_cases s c reply with ⟨stage, call, cycling'⟩ | ⟨waiting, _⟩
    · have same : (w.resume s c reply).1.rank = w.rank := by simp [rank, cycling, cycling']
      have busy : (w.resume s c reply).1.activity.isBusy = true := by rw [cycling']; rfl
      have less := ahead_resume cycling busy
      refine Prod.Lex.toLex_lt_toLex.mpr (.inr ⟨rfl, ?_⟩)
      exact Prod.Lex.toLex_lt_toLex.mpr (.inr ⟨same, less⟩)
    · exact lower (by simp [rank, cycling, waiting])
  | failCycle cycling | overrun cycling => exact lower (by simp [rank, cycling, Worker.failCycle])

/-- If no more commands come in, the worker comes to wait on an empty queue, whatever its store does: it
    goes on when its deadline has come, if not before. -/
inductive Settles : Worker → List Command → Prop where
  | rests {w : Worker} (waiting : w.activity = .waiting) : Settles w []
  | works {w : Worker} {queue : List Command}
      (able : ∀ s store, (∀ deadline, w.deadline? = some deadline → deadline ≤ s.now) →
        w.step s queue store ≠ none)
      (each : ∀ s store r, w.step s queue store = some r → Settles r.worker r.queue) : Settles w queue

theorem settles (w : Worker) (queue : List Command) : w.Settles queue := by
  by_cases rests : w.activity = .waiting ∧ queue = []
  · obtain ⟨waiting, rfl⟩ := rests
    exact .rests waiting
  · refine .works (fun s store late still => ?_) fun s store r step => ?_
    · rcases rest_cases still with waits | ⟨_, deadline, _, due, _, ahead⟩
      · exact rests waits
      · exact absurd (late deadline due) (Nat.not_le_of_lt ahead)
    · have less := (move_of_step step).left_lt
      exact settles r.worker r.queue
termination_by w.left queue
decreasing_by exact less

/-! ## All that a worker is sent -/

/-- What a worker and its queue can come to, and what has happened: commands come in at any time, and the
    worker takes its steps in any surroundings and over any store. -/
inductive Serves : Worker → List Command → List Note → Prop where
  | fresh : Serves .fresh [] []
  /-- Commands come in, whatever the worker is doing. -/
  | meanwhile {w : Worker} {queue : List Command} {past notes : List Note} (before : Serves w queue past)
      (aborted : Bool) (aloof : Aloof notes) :
      Serves { w with aborted } (queue ++ sentIn notes) (past ++ notes)
  | step {w : Worker} {queue : List Command} {past : List Note} {s : Surroundings} {store : Backend}
      {r : WorkerStep} (before : Serves w queue past) (step : w.step s queue store = some r) :
      Serves r.worker r.queue (past ++ r.notes)

theorem Serves.reads (serves : w.Serves queue past) :
    w.Honest ∧ w.Driven ∧ Desk.start.Reads past (w.desk queue) := by
  induction serves with
  | fresh => exact ⟨honest_afterCommand (b := .empty) rfl, driven_afterCommand (b := .empty) rfl, .nil⟩
  | meanwhile before aborted aloof ih =>
    obtain ⟨honest, driven, reads⟩ := ih
    exact ⟨honest, driven, reads.append (Desk.reads_aloof _ aloof)⟩
  | step before step ih =>
    obtain ⟨honest, driven, reads⟩ := ih
    have move := move_of_step step
    exact ⟨(move.tickets honest).1, move.driven, reads.append (move.reads honest driven)⟩

theorem Serves.posted (serves : w.Serves queue past) :
    w.slots.ledger = Ledger.replay [] (appliedIn past) := by
  induction serves with
  | fresh => rfl
  | meanwhile before aborted aloof ih =>
    rw [appliedIn_append, aloof.appliedIn, List.append_nil]
    exact ih
  | @step w queue past s store r before step ih =>
    have move := move_of_step step
    obtain ⟨_, taken⟩ := move.takes
    rw [appliedIn_append]
    rcases move.ledger_cases with ⟨same, queue'⟩ | ⟨c, queue', post⟩
    · have none : appliedIn r.notes = [] := by
        rw [queue'] at taken
        exact List.append_left_eq_self.mp taken
      rw [same, none, List.append_nil, ih]
    · have one : appliedIn r.notes = [c] := by
        rw [queue', ← List.singleton_append] at taken
        exact List.append_cancel_right taken
      rw [post, one, Ledger.replay_concat, ih]

/-- Every slot has been registered, and a whole cycle has followed. -/
def Cycled (w : Worker) (past : List Note) : Prop := ∀ name slot, (name, slot) ∈ w.slots →
  .applied (.register name slot.id) ∈ past
    ∧ ∀ x y, past = x ++ .applied (.register name slot.id) :: y → WholeCycle y

/-- Nothing that is put into the queue is lost, and many requests share one cycle. -/
structure Coalesces (w : Worker) (queue : List Command) (past : List Note) : Prop where
  /-- Commands are taken once each and in the order in which they were sent; the others are queued. -/
  delivered : appliedIn past ++ queue = sentIn past
  /-- The slots are what the registrations and releases among them make of them. -/
  posted : w.slots.ledger = Ledger.replay [] (appliedIn past)
  /-- A cycle begins only if one has been asked for since the last one began, and everything that has
      been sent by then has been taken. -/
  begun : ∀ a b, past = a ++ .cycleBegan :: b → Desk.Wanted a ∧ appliedIn a = sentIn a
  /-- Tickets are answered once each and in the order in which they were taken; the others are kept. -/
  answered : ticketsIn past = acknowledgedIn past ++ w.tickets
  /-- A ticket is answered after a whole cycle that began after it was taken. -/
  served : ∀ a ticket b, past = a ++ .acknowledged ticket :: b → Desk.Ripe ticket a
  /-- A worker that waits for a command has no ticket to answer. -/
  free : w.activity = .waiting → w.tickets = []
  /-- When the worker waits on an empty queue, a cycle has gone over every slot. -/
  covered : w.activity = .waiting → queue = [] → Kicked (sentIn past) → w.Cycled past
  /-- Commands that were sent before the first of them was taken share the first cycle, and another one
      begins only if it was asked for later on. -/
  shared : ∀ early late, past = early ++ late → appliedIn early = [] →
    (∀ a b, past = a ++ .cycleBegan :: b → sentIn early <+: appliedIn a)
      ∧ past.countP Note.beginsCycle ≤ 1 + requests (sentIn late)
  settles : w.Settles queue

theorem Serves.cycled (serves : w.Serves queue past) (waiting : w.activity = .waiting)
    (empty : queue = []) (kicked : Kicked (sentIn past)) : w.Cycled past := by
  obtain ⟨_, _, reads⟩ := serves.reads
  have idle : (w.desk queue).phase = .idle := by simp [desk, phase, waiting]
  have all : appliedIn past = sentIn past := reads.kept.all empty
  intro name slot member
  constructor
  · have tracked : (name, slot.id) ∈ w.slots.ledger := List.mem_map_of_mem member
    rw [serves.posted] at tracked
    exact mem_of_appliedIn ((Ledger.registered_of_replay tracked).resolve_left List.not_mem_nil)
  · intro x y parts
    rw [← all, parts, appliedIn_append] at kicked
    obtain ⟨ticket, asked⟩ := Command.Kicked.later kicked
    exact reads.kept.covered idle parts asked

theorem Serves.coalesces (serves : w.Serves queue past) : w.Coalesces queue past := by
  obtain ⟨_, _, reads⟩ := serves.reads
  have kept := reads.kept
  exact {
    delivered := kept.delivered
    posted := serves.posted
    begun := kept.begun
    answered := kept.answered
    served := kept.served
    free := fun waiting => by simp [Worker.tickets, carried?, waiting]
    covered := serves.cycled
    shared := fun _ _ parts untaken => reads.shared parts untaken
    settles := w.settles queue
  }

end Worker

/-! ## The worker of a manager -/

namespace Manager

variable {m m' : Manager} {s : Surroundings} {store b : Backend} {notes past : List Note}

/-- The queue, and the worker that there is or that a start would leave, have come to what they are by
    what has been sent. -/
structure Serves (m : Manager) (past : List Note) : Prop where
  early : m.Early → m.queueOpen = true → Worker.Serves .fresh m.queue past
  worker : ∀ k, m.worker = some k → k.Serves m.queue past
  kicked : Kicked (sentIn past)

theorem serves_fresh (owner : String) (settings : Settings) : (fresh owner settings).Serves [] where
  early _ _ := .fresh
  worker k present := by cases present
  kicked := trivial

/-- Every handle that is registered is followed by a request for a cycle. -/
theorem Shift.kicked (shift : m.Shift s store m' notes) : Kicked (sentIn notes) := by
  cases shift with
  | create name =>
    cases opened : m.queueOpen with
    | false =>
      rw [createHandle_of_closed opened]
      trivial
    | true =>
      cases taken : m.registry.active.lookup name with
      | some id =>
        rw [createHandle_of_taken opened (by simp [taken])]
        trivial
      | none =>
        rw [createHandle_of_free opened taken]
        exact ⟨fun _ => ⟨none, List.mem_singleton_self _⟩, Command.kicked_of_known rfl⟩
  | release id =>
    obtain ⟨_, _, more, known, eq⟩ := m.releaseHandle_parts id
    obtain ⟨⟨_, _, eq'⟩, _⟩ := m.releaseHandle_sent id
    have same := congrArg Manager.queue (eq.symm.trans eq')
    rw [← List.append_cancel_left same]
    exact Command.kicked_of_known known
  | work present move =>
    rw [move.takes.1]
    trivial
  | request opened running => exact Command.kicked_of_known rfl
  | pace running => trivial
  | stage staging =>
    rw [staging.idle.sentIn]
    trivial
  | reap stopped idle lost closed =>
    rw [idle.sentIn]
    trivial

theorem Serves.meanwhile (serves : m.Serves past) (kicked : Kicked (sentIn notes)) (aloof : Aloof notes)
    (early : m'.Early → m.Early)
    (queue : m'.queueOpen = true → m.queueOpen = true ∧ m'.queue = m.queue ++ sentIn notes)
    (keeps : ∀ k', m'.worker = some k' → ∃ k aborted, m.worker = some k ∧ k' = { k with aborted }) :
    m'.Serves (past ++ notes) := by
  refine ⟨fun still opened' => ?_, fun k' present' => ?_, ?_⟩
  · obtain ⟨opened, same⟩ := queue opened'
    rw [same]
    exact .meanwhile (serves.early (early still) opened) false aloof
  · obtain ⟨k, aborted, present, rfl⟩ := keeps k' present'
    rw [(queue (queueOpen_of_worker present')).2]
    exact .meanwhile (serves.worker k present) aborted aloof
  · rw [sentIn_append]
    exact serves.kicked.append kicked

theorem Serves.shift (serves : m.Serves past) (staged : m.Staged) (shift : m.Shift s store m' notes) :
    m'.Serves (past ++ notes) := by
  have sent : Kicked (sentIn notes) := shift.kicked
  have kicked : Kicked (sentIn (past ++ notes)) := by
    rw [sentIn_append]
    exact serves.kicked.append sent
  have same {m₁ : Manager} (worker : m₁.worker = m.worker) (k' : Worker) (there : m₁.worker = some k') :
      ∃ k aborted, m.worker = some k ∧ k' = { k with aborted } :=
    ⟨k', k'.aborted, worker.symm.trans there, rfl⟩
  cases shift with
  | create name =>
    have aloof := m.aloof_createHandle name
    obtain ⟨⟨registry, handles, eq⟩, _⟩ := m.createHandle_sent name
    rw [eq]
    exact serves.meanwhile sent aloof id (fun opened => ⟨opened, rfl⟩) (same rfl)
  | release id =>
    have aloof := m.aloof_releaseHandle id
    obtain ⟨⟨registry, handles, eq⟩, _⟩ := m.releaseHandle_sent id
    rw [eq]
    exact serves.meanwhile sent aloof (fun early => early) (fun opened => ⟨opened, rfl⟩) (same rfl)
  | @work k r present move =>
    rw [publishAll_eq]
    have next := (serves.worker k present).step (Worker.step_of_move move)
    refine ⟨fun early _ => ?_, fun k' present' => ?_, kicked⟩
    · cases (staged.worker_none early).symm.trans present
    · cases present'
      exact next
  | request opened running =>
    exact serves.meanwhile sent (by simp [Aloof]) id (fun _ => ⟨opened, rfl⟩) (same rfl)
  | pace running =>
    refine serves.meanwhile sent (by simp [Aloof]) id (fun opened => ?_) (same rfl)
    exact ⟨opened, (List.append_nil _).symm⟩
  | stage staging =>
    have queue (opened' : m'.queueOpen = true) :
        m.queueOpen = true ∧ m'.queue = m.queue ++ sentIn notes := by
      rw [staging.idle.sentIn, List.append_nil]
      exact staging.queue opened'
    cases staging with
    | launch early opened keeps idle won begun =>
      refine ⟨fun still _ => absurd still begun, fun k' present' => ?_, kicked⟩
      obtain ⟨k, aborted, new, rfl⟩ := keeps.worker_cases present'
      cases new
      rw [(queue (queueOpen_of_worker present')).2]
      exact .meanwhile (serves.early early opened) aborted idle.aloof
    | keep keeps idle lost stage =>
      refine serves.meanwhile sent idle.aloof (fun early' => ?_) queue
        fun k' present' => keeps.worker_cases present'
      rcases stage with still | stopped | ⟨early, _⟩
      · rwa [Early, ← still]
      · simp [Early, stopped] at early'
      · exact early
  | reap stopped idle lost closed =>
    have stopped' := (lifecycle_dropQueue { m with worker := none }).trans stopped
    refine ⟨fun early' => ?_, fun k' present' => ?_, kicked⟩
    · rcases early' with idle' | starting'
      · cases stopped'.symm.trans idle'
      · cases stopped'.symm.trans starting'
    · obtain ⟨_, _, gone, _⟩ := (keeps_dropQueue { m with worker := none }).worker_cases present'
      cases gone

end Manager

namespace World

variable {w : World} {i : Nat} {p : Participant}

theorem Reachable.serves (reachable : w.Reachable) (present : w.participants[i]? = some p) :
    p.manager.Serves (w.notesOf i) := by
  have fresh (owner : String) (settings : Settings) :
      (Manager.fresh owner settings).Staged ∧ (Manager.fresh owner settings).Serves [] :=
    ⟨Manager.staged_fresh owner settings, Manager.serves_fresh owner settings⟩
  refine (reachable.past (P := fun m past => m.Staged ∧ m.Serves past) fresh ?_ present).2
  intro m s store m' b past notes ⟨staged, serves⟩ move
  exact ⟨staged.move move, serves.shift staged (move.shift staged)⟩

/-- However commands come in to a worker, and whatever it is doing then, none is lost, and requests share
    cycles. Whatever happens in a world, that is how each manager serves its queue; and as it asks for a
    cycle after every registration, a cycle has gone over every slot whenever its worker waits with nothing
    in the queue. -/
theorem queue_coalesces :
    (∀ (k : Worker) queue past, k.Serves queue past → k.Coalesces queue past)
      ∧ ∀ (w : World) i (p : Participant) (k : Worker), w.Reachable → w.participants[i]? = some p →
        p.manager.worker = some k → k.Serves p.manager.queue (w.notesOf i)
          ∧ (k.activity = .waiting → p.manager.queue = [] → k.Cycled (w.notesOf i)) := by
  refine ⟨fun _ _ _ serves => serves.coalesces, fun w i p k reachable present worker => ?_⟩
  have serves := reachable.serves present
  have served := serves.worker k worker
  exact ⟨served, fun waiting empty => served.cycled waiting empty serves.kicked⟩

/-- Three handles are created before the manager is started. -/
def crowded : List Action :=
  [.create 0 "x", .create 0 "y", .create 0 "z", .start 0] ++ turn 0 (.attempt 0) 4 ++ turn 0 .worker 12

/-- One cycle is enough for them. -/
theorem queue_coalesces_crowded : ∃ (w : World) (p : Participant) (k : Worker),
    lone.run? crowded = some w ∧ w.participants[0]? = some p ∧ p.manager.worker = some k
      ∧ k.activity = .waiting ∧ p.manager.queue = [] ∧ k.slots.map (·.1) = ["x", "y", "z"]
      ∧ k.Cycled (w.notesOf 0) ∧ (w.notesOf 0).countP Note.beginsCycle = 1 := by
  obtain ⟨w, p, k, run, present, worker, waiting, empty, names, early, late, parts, untaken, silent,
      begun⟩ : ∃ (w : World) (p : Participant) (k : Worker), lone.run? crowded = some w
        ∧ w.participants[0]? = some p ∧ p.manager.worker = some k ∧ k.activity = .waiting
        ∧ p.manager.queue = [] ∧ k.slots.map (·.1) = ["x", "y", "z"] ∧ ∃ early late, w.notesOf 0 = early ++ late
          ∧ appliedIn early = [] ∧ requests (sentIn late) = 0 ∧ .cycleBegan ∈ w.notesOf 0 := by
    refine ⟨_, _, _, rfl, rfl, rfl, rfl, rfl, rfl, _, _, (List.take_append_drop 9 _).symm, rfl, rfl, ?_⟩
    exact List.mem_of_getElem? (show _[24]? = some Note.cycleBegan from rfl)
  have begins : lone.Begins := .join (.initial 0 [.freshMemory]) "a" (.ofMillis 8) 0 {}
  obtain ⟨serves, cycled⟩ := queue_coalesces.2 w 0 p k ⟨lone, crowded, begins, run⟩ present worker
  have coalesces := queue_coalesces.1 k _ _ serves
  have few := (coalesces.shared early late parts untaken).2
  have some : (w.notesOf 0).countP Note.beginsCycle ≠ 0 := fun none =>
    List.countP_eq_zero.mp none _ begun rfl
  exact ⟨w, p, k, run, present, worker, waiting, empty, names, cycled waiting empty, by omega⟩

end World

end Leasehold
