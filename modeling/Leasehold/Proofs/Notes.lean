import Leasehold.Proofs.Flags

/-! # What notes are about

Statements about the past of a manager need to know who writes which notes. The worker's own are
`Plain`, but for the command that it takes, the beginning of a cycle, and the end of a call:
`Worker.Account` tells for every step which of these it is. Nobody else writes of the worker's work,
except that commands are sent (`Aloof`).
-/

namespace Leasehold

/-- The requests that maintenance consists of. -/
def Request.isUpkeep : Request → Bool
  | .deleteExpired _ | .refreshOwned _ _ | .claimAbsent _ _ _ | .selectOwned _ | .deleteOwned _ _ =>
    true
  | _ => false

namespace Note

/-- Whether a note is about handles, commands, cycles, or calls of the worker. -/
def isWork : Note → Bool
  | event _ _ _ | sent _ | applied _ | cycleBegan | cycleEnded _ | acknowledged _ => true
  | began caller _ | effect caller _ | answered caller _ _ | failed caller _ _ => caller = .worker
  | _ => false

/-- Whether a note is about neither a command nor the end of a start, good or bad, or of a listing. -/
def isRoutine : Note → Bool
  | sent _ | applied _ | startEnded _ _ | startCrashed _ _ | listingEnded _ _ => false
  | _ => true

/-- Whether a note says that a start has succeeded. -/
def isSuccess : Note → Bool
  | startEnded _ (.ok _) => true
  | _ => false

/-- Whether a worker may write the note at any time: what it asks for, what it gives up, and what it
    tells. -/
def isPlain : Note → Bool
  | began caller request => caller = .worker && request.isUpkeep
  | cancelled caller _ => caller = .worker
  | event _ _ _ | cycleEnded _ | acknowledged _ | log _ _ _ => true
  | _ => false

/-- Whether a note only tells of something: an event, or a line in the log. -/
def isRemark : Note → Bool
  | event _ _ _ | log _ _ _ => true
  | _ => false

/-- Whether a note is about commands, cycles or tickets. -/
def isService : Note → Bool
  | sent _ | applied _ | cycleBegan | cycleEnded _ | acknowledged _ => true
  | _ => false

/-- Who has had a request carried out, if the note says so. -/
def effect? : Note → Option (Caller × Request)
  | effect caller request => some (caller, request)
  | _ => none

end Note

/-- Notes that neither the worker nor its queue has a part in. -/
def Idle (notes : List Note) : Prop := ∀ n ∈ notes, n.isWork = false

/-- Notes in which the worker has no part, though they may be about commands for it. -/
def Aloof (notes : List Note) : Prop := ∀ n ∈ notes, n.isWork = true → ∃ c, n = .sent c

def Routine (notes : List Note) : Prop := ∀ n ∈ notes, n.isRoutine = true

def Plain (notes : List Note) : Prop := ∀ n ∈ notes, n.isPlain = true

def Remarks (notes : List Note) : Prop := ∀ n ∈ notes, n.isRemark = true

/-- Notes that are not about commands, cycles or tickets. -/
def Beside (notes : List Note) : Prop := ∀ n ∈ notes, n.isService = false

/-- How many starts have succeeded. -/
def successes (notes : List Note) : Nat := notes.countP Note.isSuccess

/-- The requests that have been carried out, the first first. -/
def effectsIn (notes : List Note) : List (Caller × Request) := notes.filterMap Note.effect?

section Lists

variable {notes notes' : List Note}

theorem idle_append (first : Idle notes) (last : Idle notes') : Idle (notes ++ notes') :=
  List.forall_mem_append.mpr ⟨first, last⟩

theorem aloof_append (first : Aloof notes) (last : Aloof notes') : Aloof (notes ++ notes') :=
  List.forall_mem_append.mpr ⟨first, last⟩

theorem routine_append (first : Routine notes) (last : Routine notes') : Routine (notes ++ notes') :=
  List.forall_mem_append.mpr ⟨first, last⟩

theorem plain_append (first : Plain notes) (last : Plain notes') : Plain (notes ++ notes') :=
  List.forall_mem_append.mpr ⟨first, last⟩

theorem beside_append (first : Beside notes) (last : Beside notes') : Beside (notes ++ notes') :=
  List.forall_mem_append.mpr ⟨first, last⟩

theorem successes_append (notes notes' : List Note) :
    successes (notes ++ notes') = successes notes + successes notes' := List.countP_append

theorem effectsIn_append (notes notes' : List Note) :
    effectsIn (notes ++ notes') = effectsIn notes ++ effectsIn notes' := List.filterMap_append

theorem Idle.aloof (idle : Idle notes) : Aloof notes := by
  intro n member work
  cases (idle n member).symm.trans work

theorem Aloof.eventsIn (aloof : Aloof notes) : Leasehold.eventsIn notes = [] := by
  rw [Leasehold.eventsIn, List.filterMap_eq_nil_iff]
  intro n member
  cases n with
  | event name id acquired =>
    obtain ⟨c, eq⟩ := aloof _ member rfl
    cases eq
  | _ => rfl

theorem Idle.eventsIn (idle : Idle notes) : Leasehold.eventsIn notes = [] := idle.aloof.eventsIn

theorem idle_log (level : Level) (text : String) (fields : List (String × String)) :
    Idle [.log level text fields] := by
  simp [Idle, Note.isWork]

theorem Routine.successes (routine : Routine notes) : Leasehold.successes notes = 0 := by
  apply List.countP_eq_zero.mpr
  intro n member
  have usual := routine n member
  cases n with
  | startEnded id result => cases usual
  | _ => simp [Note.isSuccess]

theorem Remarks.plain (remarks : Remarks notes) : Plain notes := by
  intro n member
  have said := remarks n member
  cases n <;> first | rfl | cases said

theorem Remarks.beside (remarks : Remarks notes) : Beside notes := by
  intro n member
  have said := remarks n member
  cases n <;> first | rfl | cases said

theorem Plain.routine (plain : Plain notes) : Routine notes := by
  intro n member
  have said := plain n member
  cases n <;> first | rfl | cases said

theorem Plain.effectsIn (plain : Plain notes) : Leasehold.effectsIn notes = [] := by
  rw [Leasehold.effectsIn, List.filterMap_eq_nil_iff]
  intro n member
  have said := plain n member
  cases n with
  | effect caller request => cases said
  | _ => rfl

end Lists

theorem idle_finish (c : Call) {caller : Caller} (other : caller ≠ .worker) (trueTime : Int)
    (store : Backend) : Idle (c.finish caller trueTime store).2.2 := by
  intro n member
  rcases Call.mem_finish member with rfl | ⟨_, rfl⟩ | ⟨_, rfl⟩ | ⟨_, _, _, rfl⟩ <;>
    simp [Note.isWork, other]

section Calls

variable (c : Call) (caller : Caller) (trueTime : Int) (store : Backend)

theorem not_began_finish (other : Caller) (request : Request) :
    .began other request ∉ (c.finish caller trueTime store).2.2 := by
  intro member
  rcases Call.mem_finish member with eq | ⟨_, eq⟩ | ⟨_, eq⟩ | ⟨_, _, _, eq⟩ <;> cases eq

theorem routine_finish : Routine (c.finish caller trueTime store).2.2 := by
  intro n member
  rcases Call.mem_finish member with rfl | ⟨_, rfl⟩ | ⟨_, rfl⟩ | ⟨_, _, _, rfl⟩ <;> rfl

theorem beside_finish : Beside (c.finish caller trueTime store).2.2 := by
  intro n member
  rcases Call.mem_finish member with rfl | ⟨_, rfl⟩ | ⟨_, rfl⟩ | ⟨_, _, _, rfl⟩ <;> rfl

theorem effectsIn_finish : effectsIn (c.finish caller trueTime store).2.2 = []
    ∨ effectsIn (c.finish caller trueTime store).2.2 = [(caller, c.request)] := by
  have logs : effectsIn (Call.claimLog store c.request) = [] := by
    unfold Call.claimLog
    split <;> rfl
  have noted (result : Except LeaseError Reply) {closing : Note} (silent : closing.effect? = none) :
      effectsIn (Call.effectNotes store caller c.request result ++ [closing]) = []
        ∨ effectsIn (Call.effectNotes store caller c.request result ++ [closing])
          = [(caller, c.request)] := by
    have last : effectsIn [closing] = [] := by simp [effectsIn, silent]
    rw [effectsIn_append, last, List.append_nil]
    cases result with
    | error e => exact .inl rfl
    | ok reply => exact .inr (congrArg ((caller, c.request) :: ·) logs)
  unfold Call.finish
  cases c.fate with
  | refuse => exact .inl rfl
  | answer =>
    refine noted _ ?_
    split <;> rfl
  | lose => exact noted _ rfl

theorem finish_effects {store : Backend} (keyed : store.Keyed) :
    (c.finish caller trueTime store).2.1.held = store.held
      ∨ (c.finish caller trueTime store).2.1.held = c.request.effect store.held
        ∧ effectsIn (c.finish caller trueTime store).2.2 = [(caller, c.request)] := by
  refine (c.finish_held caller trueTime keyed).imp_right fun ⟨done, noted⟩ => ⟨done, ?_⟩
  refine (effectsIn_finish c caller trueTime store).resolve_left fun silent => ?_
  have told : (caller, c.request) ∈ effectsIn (c.finish caller trueTime store).2.2 :=
    List.mem_filterMap.mpr ⟨_, noted, rfl⟩
  simp [silent] at told

end Calls

namespace Worker

variable {w : Worker} {s : Surroundings}

theorem remarks_giveUp : Remarks (w.giveUp s).2 := by
  intro n member
  unfold giveUp at member
  split at member
  · rcases List.mem_append.mp member with event | log
    · obtain ⟨c, _, rfl⟩ := List.mem_map.mp event
      rfl
    · obtain ⟨c, _, rfl⟩ := List.mem_map.mp log
      rfl
  · cases member

theorem remarks_reconcile (owned : List String) (expiration : Int) :
    Remarks (w.reconcile s owned expiration).2 := by
  intro n member
  simp only [reconcile, eventsOf, List.mem_append, List.mem_map] at member
  rcases member with ((⟨c, _, rfl⟩ | ⟨c, _, rfl⟩) | ⟨c, _, rfl⟩) | ⟨c, _, rfl⟩ <;> rfl

theorem remarks_apply (c : Command) (b : Batch) : Remarks (w.apply c b).2 := by
  cases c with
  | register name id =>
    simp only [apply, register]
    split <;> simp [Remarks, Note.isRemark]
  | release name id =>
    simp only [apply, release]
    split
    · simp [Remarks]
    · split
      · split <;> simp [Remarks, Note.isRemark]
      · simp [Remarks]
  | maintain ticket => simp [Remarks, apply]

theorem remarks_endRelease (r : Releasing) (result : Except LeaseError Reply) :
    Remarks (w.endRelease s r result).2 := by
  intro n member
  rw [List.mem_singleton.mp member]
  unfold releaseLog
  split
  · split <;> rfl
  · rfl

theorem plain_acknowledge (tickets : List Nat) : Plain (acknowledge tickets) := by
  intro n member
  obtain ⟨ticket, _, rfl⟩ := List.mem_map.mp member
  rfl

theorem plain_purge (c : Cycle) (names : List String) : Plain (w.purge s c names).2 := by
  cases names with
  | nil =>
    exact (plain_append (by simp [Plain, Note.isPlain]) (plain_acknowledge c.tickets) :
      Plain ([.cycleEnded true] ++ acknowledge c.tickets))
  | cons name rest => simp [Plain, purge, askNext, ask, Note.isPlain, Request.isUpkeep]

theorem plain_resume (c : Cycle) (reply : Reply) : Plain (w.resume s c reply).2 := by
  unfold resume
  split
  · dsimp only
    split <;> simp [Plain, askNext, ask, Note.isPlain, Request.isUpkeep]
  · dsimp only
    split <;> simp [Plain, askNext, ask, Note.isPlain, Request.isUpkeep]
  · simp [Plain, askNext, ask, Note.isPlain, Request.isUpkeep]
  · exact plain_append (remarks_reconcile _ _).plain (plain_purge _ _)
  · exact plain_purge _ _

theorem plain_failCycle (label : String) (c : Cycle) (e : LeaseError) :
    Plain (w.failCycle s label c e).2 := by
  intro n member
  simp only [failCycle, List.cons_append, List.mem_cons, List.mem_append] at member
  rcases member with rfl | lost | rfl | told
  · rfl
  · exact remarks_giveUp.plain n lost
  · rfl
  · exact plain_acknowledge _ n told

/-- What a step of a worker writes down, and what it does to queue and store. -/
inductive Account (s : Surroundings) (w : Worker) : List Command → Backend → WorkerStep → Prop where
  | took {c queue store worker rest} (posted : worker.slots.ledger = c.post w.slots.ledger)
      (plain : Plain rest) :
      Account s w (c :: queue) store ⟨worker, queue, store, .applied c :: rest⟩
  | began {store b rest} (draining : w.activity = .draining b) (plain : Plain rest) :
      Account s w [] store ⟨(w.beginCycle s b.tickets).1, [], store, .cycleBegan :: rest⟩
  /-- A call has ended. -/
  | ended {queue store call worker rest} (called : w.call? = some call)
      (due : call.isDue s.now = true) (plain : Plain rest) :
      Account s w queue store ⟨worker, queue, (call.finish .worker s.trueTime store).2.1,
        (call.finish .worker s.trueTime store).2.2 ++ rest⟩
  | other {queue store worker notes} (plain : Plain notes) :
      Account s w queue store ⟨worker, queue, store, notes⟩

theorem Move.account {queue : List Command} {store : Backend} {r : WorkerStep}
    (move : w.Move s queue store r) : w.Account s queue store r := by
  cases move with
  | @take c _ _ b listening => exact .took (w.ledger_apply c b) (remarks_apply c b).plain
  | beginCycle draining =>
    exact .began draining (by simp [Plain, Note.isPlain, Request.isUpkeep])
  | beginRelease parting =>
    exact .other (by simp [Plain, Worker.beginRelease, ask, Note.isPlain, Request.isUpkeep])
  | endRelease releasing due =>
    exact .ended (by simp [call?, releasing]) due (remarks_endRelease _ _).plain
  | abandonRelease releasing pending late =>
    exact .other (plain_append (by simp [Plain, Note.isPlain]) remarks_giveUp.plain)
  | resume cycling due answered =>
    exact .ended (by simp [call?, cycling]) due (plain_resume _ _)
  | failCycle cycling due failed =>
    exact .ended (by simp [call?, cycling]) due (plain_failCycle _ _ _)
  | @overrun _ _ c cycling pending late =>
    have given : Plain [.cancelled .worker c.call.request] := by simp [Plain, Note.isPlain]
    exact .other (plain_append given (plain_failCycle _ _ _))

/-- Apart from the command that a worker takes, its notes are routine. -/
theorem Move.routine {queue : List Command} {store : Backend} {r : WorkerStep}
    (move : w.Move s queue store r) : r.queue = queue ∧ Routine r.notes
      ∨ ∃ c rest, queue = c :: r.queue ∧ r.worker.slots.ledger = c.post w.slots.ledger
        ∧ r.notes = .applied c :: rest ∧ Routine rest := by
  cases move.account with
  | took posted plain => exact .inr ⟨_, _, rfl, posted, rfl, plain.routine⟩
  | began draining plain => exact .inl ⟨rfl, List.forall_mem_cons.mpr ⟨rfl, plain.routine⟩⟩
  | ended called due plain =>
    exact .inl ⟨rfl, routine_append (routine_finish _ _ _ _) plain.routine⟩
  | other plain => exact .inl ⟨rfl, plain.routine⟩

theorem Move.successes {queue : List Command} {store : Backend} {r : WorkerStep}
    (move : w.Move s queue store r) : Leasehold.successes r.notes = 0 := by
  rcases move.routine with ⟨_, routine⟩ | ⟨c, rest, _, _, eq, routine⟩
  · exact routine.successes
  · rw [eq]
    exact routine.successes

end Worker

end Leasehold
