import Leasehold.Proofs.Adrift
import Leasehold.Proofs.CycleStarts
import Leasehold.Proofs.Delivery
import Leasehold.Proofs.Events

/-! # What comes before maintenance

An attempt to start asks for the table only after it has compared the clocks, and the worker, which is
the only one to maintain rows, comes with the attempt that had the table created. `Manager.Passage`
says which moves lead from one to the next, `Manager.Gated` ties where a manager stands to what can be
read in its past. Before that a manager tells nobody anything and leaves the rows of its store alone.
-/

namespace Leasehold

/-- Nobody is asked for anything. -/
def Unasked (notes : List Note) : Prop := ∀ caller request, .began caller request ∉ notes

/-- An attempt has been told the time of the store, and then has asked for the table. -/
def Compared (id : Nat) (past : List Note) : Prop :=
  ∃ time, [Note.answered (.attempt id) .referenceTime (.time time),
    .began (.attempt id) .ensureSchema].Sublist past

/-- After it had compared the clocks, an attempt has had the table created, and has succeeded. -/
def Admitted (past : List Note) : Prop :=
  ∃ id time reply, [Note.answered (.attempt id) .referenceTime (.time time),
    .began (.attempt id) .ensureSchema, .answered (.attempt id) .ensureSchema reply,
    .startEnded id (.ok ())].Sublist past

/-- Whatever maintenance asks for, the worker asks for it after a start has succeeded. -/
def Upkept (past : List Note) : Prop :=
  ∀ first caller request rest, past = first ++ .began caller request :: rest →
    request.isUpkeep = true → caller = .worker ∧ Admitted first

section Lists

variable {notes notes' past : List Note} {id : Nat}

theorem unasked_append (first : Unasked notes) (last : Unasked notes') : Unasked (notes ++ notes') :=
  fun caller request member =>
    (List.mem_append.mp member).elim (first caller request) (last caller request)

theorem Compared.later (compared : Compared id past) (notes : List Note) :
    Compared id (past ++ notes) :=
  compared.imp fun _ within => within.trans (List.sublist_append_left _ _)

theorem Admitted.later (admitted : Admitted past) (notes : List Note) : Admitted (past ++ notes) := by
  obtain ⟨id, time, reply, within⟩ := admitted
  exact ⟨id, time, reply, within.trans (List.sublist_append_left _ _)⟩

theorem Admitted.successes_pos (admitted : Admitted past) : 0 < successes past := by
  obtain ⟨id, time, reply, within⟩ := admitted
  have said : Note.startEnded id (.ok ()) ∈ past := within.subset (by simp)
  exact List.countP_pos_iff.mpr ⟨_, said, rfl⟩

theorem Upkept.append (upkept : Upkept past) (new : ∀ caller request, .began caller request ∈ notes →
    request.isUpkeep = true → caller = .worker ∧ Admitted past) : Upkept (past ++ notes) := by
  intro first caller request rest eq upkeep
  rcases List.append_eq_append_iff.mp eq with ⟨more, rfl, split⟩ | ⟨more, split, later⟩
  · have member : .began caller request ∈ notes := by simp [split]
    obtain ⟨worker, admitted⟩ := new caller request member upkeep
    exact ⟨worker, admitted.later more⟩
  · cases more with
    | nil =>
      rw [List.append_nil] at split
      have all : notes = .began caller request :: rest := by simpa using later.symm
      exact split ▸ new caller request (by simp [all]) upkeep
    | cons n more =>
      obtain ⟨rfl, _⟩ := List.cons.inj later
      exact upkept first caller request more split upkeep

end Lists

theorem Worker.Move.asks {w : Worker} {queue : List Command} {s : Surroundings} {store : Backend}
    {r : WorkerStep} (move : w.Move s queue store r) {caller : Caller} {request : Request}
    (member : .began caller request ∈ r.notes) : caller = .worker ∧ request.isUpkeep = true := by
  have said {rest : List Note} (plain : Plain rest) (inside : .began caller request ∈ rest) :
      caller = .worker ∧ request.isUpkeep = true := by
    simpa [Note.isPlain] using plain _ inside
  cases move.account with
  | took posted plain => exact said plain (by simpa using member)
  | began draining plain => exact said plain (by simpa using member)
  | ended called due plain =>
    exact said plain ((List.mem_append.mp member).resolve_left (not_began_finish _ _ _ _ _ _))
  | other plain => exact said plain member

namespace Manager

variable {m m' : Manager} {s : Surroundings} {store b : Backend} {notes past : List Note}

theorem unasked_send (m : Manager) (c : Command) : Unasked (m.send c).2 := by
  cases opened : m.queueOpen with
  | true => simp [send_of_open opened, Unasked]
  | false => simp [send_of_closed opened, Unasked]

theorem unasked_createHandle (m : Manager) (name : String) : Unasked (m.createHandle name).2.2 := by
  cases opened : m.queueOpen with
  | false => simp [createHandle_of_closed opened, Unasked]
  | true =>
    cases taken : m.registry.active.lookup name with
    | none => simp [createHandle_of_free opened taken, Unasked]
    | some id =>
      rw [createHandle_of_taken opened (by simp [taken])]
      simp [Unasked]

theorem unasked_releaseHandle (m : Manager) (id : Nat) : Unasked (m.releaseHandle id).2 := by
  unfold releaseHandle
  split
  · simp [Unasked]
  · split
    · simp [Unasked]
    · unfold unregister
      split
      · exact unasked_send _ _
      · simp [Unasked]

theorem unasked_stop (m : Manager) : Unasked m.stop.2 := by
  by_cases running : m.lifecycle = .running <;> simp [stop, running, Unasked]

theorem unasked_failStart (m : Manager) (id : Nat) (e : LeaseError) :
    Unasked (m.failStart id e).2 := by
  simp [failStart, endAttempt, Unasked]

theorem unasked_crashStart (m : Manager) (id : Nat) (overflow : Overflow) :
    Unasked (m.crashStart id overflow).2 := by
  simp [crashStart, Unasked]

theorem unasked_finishStart (m : Manager) (label : String) (id : Nat) :
    Unasked (m.finishStart label id).2 := by
  unfold finishStart
  split <;> simp [endAttempt, Unasked]

/-- A move that does not lead on: no attempt goes on to ask for the table, no worker comes, and only
    the worker asks for anything that changes rows. -/
structure Beside (m m' : Manager) (notes : List Note) : Prop where
  preparing : ∀ a ∈ m'.attempts, ∀ call, a.stage = .preparing call → a ∈ m.attempts
  worker : m'.worker.isSome = true → m.worker.isSome = true
  asks : ∀ caller request, .began caller request ∈ notes → request ≠ .ensureSchema
    ∧ (request.isUpkeep = true → caller = .worker ∧ m.worker.isSome = true)

theorem beside_of_unasked (fewer : ∀ a ∈ m'.attempts, a ∈ m.attempts)
    (worker : m'.worker.isSome = m.worker.isSome) (unasked : Unasked notes) : m.Beside m' notes where
  preparing a member _ _ := fewer a member
  worker there := worker ▸ there
  asks caller request member := absurd member (unasked caller request)

/-- What a move is on the way from a start to maintenance. -/
inductive Passage (s : Surroundings) (store : Backend) (m : Manager) : Manager → List Note → Prop where
  /-- The clocks agree, and the table is to be created. -/
  | compare {a : Attempt} {call : Call} {reply : Reply} {text : String} (present : a ∈ m.attempts)
      (comparing : a.stage = .comparing call)
      (answered : (call.finish (.attempt a.id) s.trueTime store).1 = .ok reply)
      (near : Reading.skew s.clock reply.millis ≤ m.settings.graceMillis) :
      Passage s store m (m.setStage a.id (.preparing (Call.place s.link s.now .ensureSchema)))
        ((call.finish (.attempt a.id) s.trueTime store).2.2
          ++ [.log .debug text [], .began (.attempt a.id) .ensureSchema])
  /-- The table has been created. -/
  | finish {a : Attempt} {call : Call} {reply : Reply} (present : a ∈ m.attempts)
      (preparing : a.stage = .preparing call)
      (answered : (call.finish (.attempt a.id) s.trueTime store).1 = .ok reply) :
      Passage s store m (m.finishStart store.label a.id).1
        ((call.finish (.attempt a.id) s.trueTime store).2.2 ++ (m.finishStart store.label a.id).2)
  | beside {m' : Manager} {notes : List Note} (beside : m.Beside m' notes) : Passage s store m m' notes

theorem Move.passage (move : m.Move s store m' b notes) (enabled : m.settings.enabled = true) :
    m.Passage s store m' notes := by
  have after (c : Call) (caller : Caller) {notes : List Note} (unasked : Unasked notes) :
      Unasked ((c.finish caller s.trueTime store).2.2 ++ notes) :=
    unasked_append (not_began_finish _ _ _ _) unasked
  cases move with
  | create name =>
    obtain ⟨registry, handles, more, eq⟩ := m.createHandle_eq name
    exact .beside (beside_of_unasked (by simp [eq]) (by rw [eq])
      (m.unasked_createHandle name))
  | release id =>
    obtain ⟨registry, handles, more, eq⟩ := m.releaseHandle_eq id
    exact .beside (beside_of_unasked (by simp [eq]) (by rw [eq])
      (m.unasked_releaseHandle id))
  | stop =>
    exact .beside (beside_of_unasked (fewer_stop m).attempts (keeps_stop m).isSome_worker m.unasked_stop)
  | abandon =>
    exact .beside (beside_of_unasked (fewer_dropIfUnused { m with referenced := false }).attempts
      (keeps_abandon m).isSome_worker (by simp [Unasked]))
  | beginStart id =>
    refine .beside ⟨fun a member call preparing => ?_, fun there => there, by simp⟩
    rcases List.mem_append.mp member with old | new
    · exact old
    · rw [List.mem_singleton.mp new] at preparing
      cases preparing
  | beginListing id => exact .beside (beside_of_unasked (fun _ member => member) rfl (by simp [Unasked]))
  | worker present move =>
    rw [publishAll_eq]
    refine .beside ⟨fun a member _ _ => member, fun _ => by simp [present], ?_⟩
    intro caller request member
    obtain ⟨worker, upkeep⟩ := move.asks member
    refine ⟨?_, fun _ => ⟨worker, by simp [present]⟩⟩
    rintro rfl
    cases upkeep
  | request | retire | pace | reapScheduler =>
    exact .beside (beside_of_unasked (fun _ member => member) rfl (by simp [Unasked]))
  | refuse id e =>
    exact .beside (beside_of_unasked (fewer_dropAttempt m id).attempts
      (keeps_dropAttempt m id).isSome_worker (by simp [Unasked]))
  | @enter id idle enabled =>
    refine .beside ⟨fun a member call preparing => ?_, fun there => there, by simp [Request.isUpkeep]⟩
    rcases mem_setStage member with ⟨_, stage⟩ | ⟨_, old⟩
    · cases stage.symm.trans preparing
    · exact old
  | enterAlone idle disabled => cases enabled.symm.trans disabled
  | @fail a call _ present called due e fields notes_eq =>
    refine .beside (beside_of_unasked (fewer_failStart m a.id e).attempts
      (keeps_failStart (queueOpen_of_attempt present (keepsQueue_of_call? called))).isSome_worker
      (after _ _ (unasked_append ?_ (m.unasked_failStart a.id e))))
    rcases notes_eq with rfl | rfl <;> simp [Unasked]
  | @crash a call reply overflow present comparing due answered overflows =>
    exact .beside (beside_of_unasked (fewer_dropAttempt m a.id).attempts
      (keeps_dropAttempt m a.id).isSome_worker (after _ _ (m.unasked_crashStart a.id overflow)))
  | compare present comparing due answered near => exact .compare present comparing answered near
  | finish present preparing due answered => exact .finish present preparing answered
  | askListing id =>
    exact .beside ⟨fun a member _ _ => member, fun there => there, by simp [Request.isUpkeep]⟩
  | @endListing l call present called due =>
    exact .beside (beside_of_unasked (fewer_endListing m l.id).attempts
      (keeps_endListing m l.id).isSome_worker (after _ _ (by simp [Unasked])))
  | reapWorker present aborted =>
    obtain ⟨queue, eq⟩ := ({ m with worker := none } : Manager).dropQueue_eq
    have gone : (m.reap .worker).1 = { m with worker := none, queue } := eq
    rw [gone]
    exact .beside ⟨fun a member _ _ => member, by simp, by simp [reap]⟩

/-- How a manager stands to what can be read in its past. -/
structure Gated (m : Manager) (past : List Note) : Prop where
  modest : m.Modest
  preparing : ∀ a ∈ m.attempts, ∀ call, a.stage = .preparing call → Compared a.id past
  working : m.worker.isSome = true → Admitted past
  upkept : Upkept past

theorem gated_fresh (owner : String) (settings : Settings) : (fresh owner settings).Gated [] where
  modest := modest_fresh owner settings
  preparing a member := by cases member
  working there := by cases there
  upkept first caller request rest eq := by simp at eq

theorem time_of_answered {c : Call} {caller : Caller} {trueTime : Int} {reply : Reply}
    (asks : c.request = .referenceTime) (answered : (c.finish caller trueTime store).1 = .ok reply) :
    reply = .time reply.millis
      ∧ .answered caller .referenceTime reply ∈ (c.finish caller trueTime store).2.2 := by
  obtain ⟨performed, _, noted⟩ := Call.finish_ok answered
  rw [asks] at performed
  refine ⟨?_, by simp [noted, asks]⟩
  cases store <;> cases performed <;> rfl

theorem Gated.compare (gated : m.Gated past) {a : Attempt} (present : a ∈ m.attempts) {call : Call}
    (comparing : a.stage = .comparing call) {reply : Reply}
    (answered : (call.finish (.attempt a.id) s.trueTime store).1 = .ok reply) (text : String) :
    [Note.answered (.attempt a.id) .referenceTime (.time reply.millis),
        .began (.attempt a.id) .ensureSchema].Sublist
      ((call.finish (.attempt a.id) s.trueTime store).2.2
        ++ [.log .debug text [], .began (.attempt a.id) .ensureSchema]) := by
  have asks := gated.modest.comparing a present call comparing
  obtain ⟨time, told⟩ := time_of_answered asks answered
  rw [time] at told
  exact (List.singleton_sublist.mpr told).append (List.sublist_cons_self _ _)

theorem Gated.move (gated : m.Gated past) (move : m.Move s store m' b notes)
    (enabled : m.settings.enabled = true) : m'.Gated (past ++ notes) := by
  have modest := gated.modest.move move
  cases move.passage enabled with
  | @compare a call reply text present comparing answered near =>
    refine ⟨modest, fun k member call' preparing => ?_, fun there => ?_, gated.upkept.append ?_⟩
    · rcases mem_setStage member with ⟨same, _⟩ | ⟨_, old⟩
      · rw [same]
        exact ⟨_, (gated.compare present comparing answered text).trans
          (List.sublist_append_right _ _)⟩
      · exact (gated.preparing k old call' preparing).later _
    · exact (gated.working there).later _
    · intro caller request member upkeep
      rcases List.mem_append.mp member with called | last
      · exact absurd called (not_began_finish _ _ _ _ _ _)
      · simp only [List.mem_cons, reduceCtorEq, Note.began.injEq, List.not_mem_nil, or_false,
          false_or] at last
        rw [last.2] at upkeep
        cases upkeep
  | @finish a call reply present preparing answered =>
    have unasked := unasked_append (not_began_finish call (.attempt a.id) s.trueTime store)
      (m.unasked_finishStart store.label a.id)
    refine ⟨modest, fun k member call' preparing' => ?_, fun there => ?_,
      gated.upkept.append fun caller request member => absurd member (unasked _ _)⟩
    · rw [attempts_finishStart] at member
      exact (gated.preparing k (List.mem_filter.mp member).1 call' preparing').later _
    · by_cases starting : m.lifecycle = .starting
      · obtain ⟨time, compared⟩ := gated.preparing a present call preparing
        obtain ⟨_, _, noted⟩ := Call.finish_ok answered
        rw [gated.modest.preparing a present call preparing] at noted
        have created : [Note.answered (.attempt a.id) .ensureSchema reply].Sublist
            (call.finish (.attempt a.id) s.trueTime store).2.2 := by simp [noted]
        have succeeded : [Note.startEnded a.id (.ok ())].Sublist
            (m.finishStart store.label a.id).2 := by
          simp [finishStart, starting, endAttempt]
        exact ⟨a.id, time, reply, compared.append (created.append succeeded)⟩
      · rw [finishStart_of_stopped starting] at there
        exact (gated.working ((keeps_dropAttempt m a.id).isSome_worker ▸ there)).later _
  | beside beside =>
    refine ⟨modest, fun a member call preparing => ?_, fun there => ?_, gated.upkept.append ?_⟩
    · exact (gated.preparing a (beside.preparing a member call preparing) call preparing).later _
    · exact (gated.working (beside.worker there)).later _
    · intro caller request member upkeep
      obtain ⟨worker, present⟩ := (beside.asks caller request member).2 upkeep
      exact ⟨worker, gated.working present⟩

/-! ## Before the first success -/

theorem Shift.aloof (shift : m.Shift s store m' notes) (none : m.worker = none) : Aloof notes := by
  cases shift with
  | create name => exact m.aloof_createHandle name
  | release id => exact m.aloof_releaseHandle id
  | work present move => cases none.symm.trans present
  | request opened running => simp [Aloof]
  | pace running => simp [Aloof]
  | stage staging => exact staging.idle.aloof
  | reap stopped idle lost closed => exact idle.aloof

/-- Calls of attempts and listings leave the rows as they are, and a store that has its table as it
    is. -/
theorem Modest.finish (modest : m.Modest) {call : Call} (awaits : m.Awaits call) (caller : Caller)
    (trueTime : Int) (store : Backend) :
    (call.finish caller trueTime store).2.1.rows = store.rows
      ∧ (store.isReady = true → (call.finish caller trueTime store).2.1 = store) := by
  have performed (now : Int) : (store.perform now call.request).2.rows = store.rows
      ∧ (store.isReady = true → (store.perform now call.request).2 = store) := by
    cases store with
    | memory table => rcases modest.request awaits with eq | eq | eq <;> rw [eq] <;> exact ⟨rfl, fun _ => rfl⟩
    | sqlite d =>
      obtain ⟨table⟩ := d
      cases table with
      | none => rcases modest.request awaits with eq | eq | eq <;> rw [eq] <;> exact ⟨rfl, nofun⟩
      | some rows => rcases modest.request awaits with eq | eq | eq <;> rw [eq] <;> exact ⟨rfl, fun _ => rfl⟩
  unfold Call.finish
  cases call.fate with
  | refuse => exact ⟨rfl, fun _ => rfl⟩
  | answer | lose => exact performed _

theorem Move.untouched (move : m.Move s store m' b notes) (modest : m.Modest) (none : m.worker = none) :
    b.rows = store.rows ∧ (store.isReady = true → b = store) := by
  rcases move.work_cases with ⟨w, r, present, _⟩ | aside
  · cases none.symm.trans present
  · rcases aside.store with rfl | ⟨call, caller, awaits, _, rfl⟩
    · exact ⟨rfl, fun _ => rfl⟩
    · exact modest.finish awaits caller s.trueTime store

end Manager

namespace World

variable {w w' : World} {i : Nat} {p p' : Participant} {a : Action}

theorem Reachable.gated (reachable : w.Reachable) (present : w.participants[i]? = some p)
    (enabled : p.manager.settings.enabled = true) : p.manager.Gated (w.notesOf i) := by
  refine reachable.past (P := fun m past => m.settings.enabled = true → m.Gated past)
    (fun owner settings _ => Manager.gated_fresh owner settings) ?_ present enabled
  intro m s store m' b past notes gated move enabled
  rw [move.frame.2] at enabled
  exact (gated enabled).move move enabled

theorem Reachable.unstarted (reachable : w.Reachable) (present : w.participants[i]? = some p)
    (lost : successes (w.notesOf i) = 0) : p.manager.worker = none ∧ Aloof (w.notesOf i) := by
  have fresh (owner : String) (settings : Settings) : (Manager.fresh owner settings).Staged
      ∧ (successes [] = 0 → (Manager.fresh owner settings).worker = none ∧ Aloof []) :=
    ⟨Manager.staged_fresh owner settings, fun _ => ⟨rfl, by simp [Aloof]⟩⟩
  refine (reachable.past (P := fun m past => m.Staged
    ∧ (successes past = 0 → m.worker = none ∧ Aloof past)) fresh ?_ present).2 lost
  rintro m s store m' b past notes ⟨staged, before⟩ move
  have shift := move.shift staged
  refine ⟨staged.move move, fun lost => ?_⟩
  rw [successes_append] at lost
  obtain ⟨none, aloof⟩ := before (by omega)
  refine ⟨?_, aloof_append aloof (shift.aloof none)⟩
  cases worker : m'.worker with
  | none => rfl
  | some k =>
    have arrived := shift.successes_of_arrival (.inl ⟨none, by simp [worker]⟩)
    omega

/-- A manager that has told nobody anything, and that keeps in order what it has been told. -/
structure Dormant (w : World) (i : Nat) (p : Participant) : Prop where
  worker : p.manager.worker = none
  events : eventsIn (w.notesOf i) = []
  applied : appliedIn (w.notesOf i) = []
  handles : ∀ h ∈ p.manager.handles, h.isAcquired = false
  queue : p.manager.lifecycle ≠ .stopped → ¬ Crashed (w.notesOf i) →
    p.manager.queue = sentIn (w.notesOf i)

theorem Reachable.dormant (reachable : w.Reachable) (present : w.participants[i]? = some p)
    (lost : successes (w.notesOf i) = 0) : w.Dormant i p := by
  obtain ⟨none, aloof⟩ := reachable.unstarted present lost
  have orderly := reachable.orderly present
  refine ⟨none, aloof.eventsIn, aloof.appliedIn, fun h member => ?_, fun active smooth => ?_⟩
  · have shown := (reachable.recorded present).heard.shown h member
    rw [told_of_quiet aloof.eventsIn] at shown
    simp [Handle.isAcquired, shown, latest]
  · refine (orderly.early ?_).2 (reachable.queueOpen present active smooth)
    cases stage : p.manager.lifecycle with
    | idle => exact .inl stage
    | starting => exact .inr stage
    | stopped => exact absurd stage active
    | running =>
      have there := (orderly.staged.running stage).1
      simp [none] at there

theorem Begins.none_adrift {start : World} {actions : List Action} (begins : start.Begins)
    (run : start.run? actions = some w) (lost : successes (w.notesOf i) = 0) :
    ∀ stray ∈ w.adrift, stray.participant ≠ i := by
  rintro stray member rfl
  obtain ⟨before, after, v, p, k, call, rfl, origin⟩ := begins.origin run member
  rw [run?_append, origin.run, Option.bind_some] at run
  obtain ⟨more, past⟩ := past_of_run run stray.participant
  rw [← past, successes_append] at lost
  have reachable : v.Reachable := ⟨start, before, begins, origin.run⟩
  have none := (reachable.unstarted origin.present (by omega)).1
  cases none.symm.trans origin.worker

/-- Only an attempt asks for the table, and only when it has just been told a time that its clock is
    near to. -/
theorem Reachable.compares (reachable : w.Reachable) (act : w.act? a = some w')
    (present : w.participants[i]? = some p) (present' : w'.participants[i]? = some p')
    (enabled : p.manager.settings.enabled = true) {caller : Caller}
    (asked : .began caller .ensureSchema ∈ w.newsOf w' i) :
    ∃ id time, caller = .attempt id
      ∧ [.answered caller .referenceTime (.time time), .began caller .ensureSchema].Sublist
        (w.newsOf w' i)
      ∧ Reading.skew (p.clock.reading w.trueTime) time ≤ p.manager.settings.graceMillis := by
  obtain ⟨q, there, ⟨_, silent⟩ | ⟨b, move⟩⟩ := (change_of_act? act).news_cases present'
  · simp [silent] at asked
  · obtain rfl := Option.some.inj (present.symm.trans there)
    have gated := reachable.gated present enabled
    revert asked
    generalize w.newsOf w' i = news at move
    generalize p'.manager = m at move
    intro asked
    cases move.passage enabled with
    | @compare a call reply text member comparing answered near =>
      obtain rfl : caller = .attempt a.id := by
        rcases List.mem_append.mp asked with called | last
        · exact absurd called (not_began_finish _ _ _ _ _ _)
        · simpa using last
      exact ⟨a.id, reply.millis, rfl, gated.compare member comparing answered text, near⟩
    | finish member preparing answered =>
      exact absurd asked (unasked_append (not_began_finish _ _ _ _)
        (Manager.unasked_finishStart _ _ _) _ _)
    | beside beside => exact absurd rfl (beside.asks _ _ asked).1

theorem Reachable.grown (reachable : w.Reachable) (act : w.act? a = some w')
    (present : w.participants[i]? = some p) (present' : w'.participants[i]? = some p') :
    p'.manager.settings = p.manager.settings ∧ ∃ notes, w'.notesOf i = w.notesOf i ++ notes
      ∧ (successes (w.notesOf i) = 0 → Aloof notes) := by
  obtain ⟨q, there, still⟩ := (change_of_act? act).past_cases present'
  obtain rfl := Option.some.inj (present.symm.trans there)
  rcases still with ⟨same, past⟩ | ⟨b, notes, move, past⟩
  · exact ⟨by rw [same], [], by rw [past, List.append_nil], fun _ => by simp [Aloof]⟩
  · refine ⟨move.frame.2, notes, past, fun lost => ?_⟩
    have staged := reachable.staged (List.mem_of_getElem? present)
    exact (move.shift staged).aloof (reachable.unstarted present lost).1

/-- A manager with leases asks for the table only after an attempt to start has found the clocks close,
    and asks for maintenance only by the worker of the one start that has succeeded, after that start
    had the table created. Until a start succeeds, its handles are unacquired and told nothing, none of
    its moves changes a row, or anything in a store that has its table, no call of its own is adrift, and
    what has been sent waits in the queue, unless a start has crashed. The worker takes commands in the
    order in which they were sent: those from before the success within one lease duration for each
    release among them, unless the manager is stopped. -/
theorem startup_gate {start : World} {actions : List Action} (begins : start.Begins)
    (run : start.run? actions = some w) (act : w.act? a = some w')
    (present : w.participants[i]? = some p) (present' : w'.participants[i]? = some p')
    (enabled : p.manager.settings.enabled = true) :
    (∀ caller, .began caller .ensureSchema ∈ w.newsOf w' i → ∃ id time, caller = .attempt id
        ∧ [.answered caller .referenceTime (.time time), .began caller .ensureSchema].Sublist
          (w.newsOf w' i)
        ∧ Reading.skew (p.clock.reading w.trueTime) time ≤ p.manager.settings.graceMillis)
      ∧ (∀ first caller request rest, w'.notesOf i = first ++ .began caller request :: rest →
        request.isUpkeep = true → caller = .worker ∧ Admitted first ∧ successes first = 1)
      ∧ (successes (w'.notesOf i) = 0 → w'.Dormant i p' ∧ (∀ stray ∈ w'.adrift, stray.participant ≠ i)
        ∧ ∀ m b notes, w.Moved i p m b notes w' →
          b.rows = (w.storeOf p).rows ∧ ((w.storeOf p).isReady = true → b = w.storeOf p))
      ∧ appliedIn (w'.notesOf i) <+: sentIn (w'.notesOf i)
      ∧ (successes (w.notesOf i) = 0 → successes (w'.notesOf i) ≠ 0 → p'.manager.lifecycle = .running →
        p'.manager.queue = sentIn (w'.notesOf i)
          ∧ ∀ later w'' p'', w'.run? later = some w'' → w''.participants[i]? = some p'' →
            p''.manager.lifecycle = .running →
              w'.now + p'.manager.settings.leaseDuration.ceilMillis * releases (sentIn (w'.notesOf i))
                < w''.now → sentIn (w'.notesOf i) <+: appliedIn (w''.notesOf i)) := by
  have reachable : w.Reachable := ⟨start, actions, begins, run⟩
  have reachable' := reachable.act act
  obtain ⟨settings, notes, past, aloof⟩ := reachable.grown act present present'
  have delivers := reachable'.delivers present'
  refine ⟨fun caller asked => reachable.compares act present present' enabled asked,
    fun first caller request rest eq upkeep => ?_, fun lost => ?_, delivers.order,
    fun before after running => ⟨?_, fun later w'' p'' run' present'' running'' late => ?_⟩⟩
  · have gated := reachable'.gated present' (settings ▸ enabled)
    obtain ⟨worker, admitted⟩ := gated.upkept first caller request rest eq upkeep
    refine ⟨worker, admitted, ?_⟩
    have once := (reachable'.orderly present').once
    have some := admitted.successes_pos
    rw [eq, successes_append] at once
    omega
  · have whole : start.run? (actions ++ [a]) = some w' := by
      rw [run?_append, run, Option.bind_some, run?_singleton act]
    have none := begins.none_adrift whole lost
    refine ⟨reachable'.dormant present' lost, none, fun m b notes moved => ?_⟩
    have modest := (reachable.gated present enabled).modest
    rw [past, successes_append] at lost
    exact moved.move.untouched modest (reachable.unstarted present (by omega)).1
  · have opened : p'.manager.queueOpen = true := by
      have there := ((reachable'.orderly present').staged.running running).1
      exact Manager.queueOpen_iff.mpr (.inr (.inr there))
    have none : appliedIn (w'.notesOf i) = [] := by
      rw [past, appliedIn_append, (reachable.dormant present before).applied, (aloof before).appliedIn]
      rfl
    have whole := delivers.queued opened
    rwa [none] at whole
  · exact reachable.taken act present' before after running run' present'' running'' late

/-- One manager on a fresh database, its clock 8 ms ahead of the store's. -/
def skewed : World := (initial 0 [.freshSqlite]).join "a" ⟨.ofMillis 8, true⟩ 0 { offset := 8 }

/-- A start fails, between a handle that is created and given up and another one; the clock is set right,
    and a second start waits for the table that it has asked for. -/
def secondTry : List Action :=
  .create 0 "x" :: .start 0 :: turn 0 (.attempt 0) 3
    ++ .release 0 0 :: .create 0 "y" :: .setClock 0 {} :: .start 0 :: turn 0 (.attempt 1) 2

/-- What is sent in the course of it. -/
def backlog : List Command :=
  [.register "x" 0, .maintain none, .release "x" 0, .register "y" 1, .maintain none]

theorem startup_gate_secondTry : ∃ (w w' : World) (p p' : Participant),
    skewed.run? secondTry = some w ∧ w.act? (.proceed ⟨0, .attempt 1⟩) = some w' ∧ w.participants[0]? = some p
      ∧ w'.participants[0]? = some p' ∧ p.manager.settings.enabled = true
      ∧ .startEnded 0 (.error (.clockSkew 8 2)) ∈ w.notesOf 0 ∧ successes (w.notesOf 0) = 0
      ∧ successes (w'.notesOf 0) = 1 ∧ p'.manager.queue = backlog
      ∧ ∀ later w'' p'', w'.run? later = some w'' → w''.participants[0]? = some p'' →
        p''.manager.lifecycle = .running → 8 < w''.now → backlog <+: appliedIn (w''.notesOf 0) := by
  have begins : skewed.Begins := .join (.initial 0 [.freshSqlite]) "a" _ 0 _
  have run : skewed.run? secondTry = some _ := rfl
  obtain ⟨_, _, _, _, served⟩ := startup_gate begins run (a := .proceed ⟨0, .attempt 1⟩) rfl (i := 0) rfl rfl rfl
  obtain ⟨queue, taken⟩ := served rfl (by decide) rfl
  exact ⟨_, _, _, _, run, rfl, rfl, rfl, rfl, List.mem_of_getElem? (i := 7) rfl, rfl, rfl, queue, taken⟩

end World

end Leasehold
