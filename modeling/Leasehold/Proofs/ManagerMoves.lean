import Leasehold.Manager.Tasks
import Leasehold.Proofs.WorkerMoves

/-! # What can happen to a manager

`Manager.Move` lists everything that changes a manager: what its application asks of it, and the
steps of its tasks. Each move tells the manager afterwards, the store afterwards and what is noted.
The step functions of the tasks are opened here only.
-/

namespace Leasehold

namespace Manager

/-- Everything that can happen to a manager, whose store is `store`. -/
inductive Move (s : Surroundings) (store : Backend) (m : Manager) :
    Manager → Backend → List Note → Prop where
  | create (name : String) :
      Move s store m (m.createHandle name).2.1 store (m.createHandle name).2.2
  | release (id : Nat) : Move s store m (m.releaseHandle id).1 store (m.releaseHandle id).2
  | stop : Move s store m m.stop.1 store m.stop.2
  | abandon : Move s store m m.abandon store []
  | beginStart (id : Nat) : Move s store m (m.beginStart id) store []
  | beginListing (id : Nat) : Move s store m (m.beginListing id) store []
  | worker {w r} (present : m.worker = some w) (move : w.Move s m.queue store r) :
      Move s store m (({ m with worker := some r.worker, queue := r.queue }).publishAll r.notes)
        r.store r.notes
  /-- The scheduler requests a cycle. -/
  | request {sc next ticket} (present : m.scheduler = some sc)
      (step : sc.step s.now m.settings.interval = some (next, some ticket))
      (listened : m.queueOpen = true) :
      Move s store m
        { m with scheduler := some next, queue := m.queue ++ [.maintain (some ticket)] } store
        [.sent (.maintain (some ticket))]
  /-- The scheduler finds the queue closed and ends. -/
  | retire {sc next ticket} (present : m.scheduler = some sc)
      (step : sc.step s.now m.settings.interval = some (next, some ticket))
      (closed : m.queueOpen = false) :
      Move s store m { m with scheduler := none } store
        [.log .debug "Maintenance scheduler exiting: work queue closed" []]
  /-- The scheduler goes to sleep or wakes. -/
  | pace {sc next} (present : m.scheduler = some sc)
      (step : sc.step s.now m.settings.interval = some (next, none)) :
      Move s store m { m with scheduler := some next } store []
  /-- An attempt to start is turned down before it has taken the queue. -/
  | refuse (id : Nat) (e : LeaseError) :
      Move s store m (m.endAttempt id (.error e)).1 store [.startEnded id (.error e)]
  /-- An attempt to start takes the queue and asks the store for its time. -/
  | enter {id : Nat} (idle : m.lifecycle = .idle) (enabled : m.settings.enabled = true) :
      Move s store m
        (({ m with lifecycle := .starting }).setStage id
          (.comparing (Call.place s.link s.now .referenceTime)))
        store [.began (.attempt id) .referenceTime]
  /-- With leases disabled, an attempt to start succeeds at once. -/
  | enterAlone {id : Nat} {fields} (idle : m.lifecycle = .idle)
      (disabled : m.settings.enabled = false) :
      Move s store m (({ m with lifecycle := .starting }).finishStart store.label id).1 store
        (.log .warn "Leases are disabled: every lease is granted locally without coordination" fields
          :: (({ m with lifecycle := .starting }).finishStart store.label id).2)
  /-- An attempt to start fails: so has its call, or the clocks are too far apart. -/
  | fail {a : Attempt} {call : Call} {notes} (present : a ∈ m.attempts)
      (called : a.call? = some call) (due : call.isDue s.now = true) (e : LeaseError)
      (fields : List (String × String))
      (notes_eq : notes = [] ∨ notes = [.log .error
        "Local clock is not synchronized with the lease store" fields]) :
      Move s store m (m.failStart a.id e).1
        (call.finish (.attempt a.id) s.trueTime store).2.1
        ((call.finish (.attempt a.id) s.trueTime store).2.2
          ++ (notes ++ (m.failStart a.id e).2))
  /-- An attempt to start crashes as it compares the clocks. -/
  | crash {a : Attempt} {call : Call} {reply : Reply} {overflow : Overflow} (present : a ∈ m.attempts)
      (comparing : a.stage = .comparing call) (due : call.isDue s.now = true)
      (answered : (call.finish (.attempt a.id) s.trueTime store).1 = .ok reply)
      (overflows : Reading.skewOverflow? s.clock reply.millis = some overflow) :
      Move s store m (m.crashStart a.id overflow).1
        (call.finish (.attempt a.id) s.trueTime store).2.1
        ((call.finish (.attempt a.id) s.trueTime store).2.2 ++ (m.crashStart a.id overflow).2)
  /-- The clocks agree, and the table is to be created. -/
  | compare {a : Attempt} {call : Call} {reply : Reply} {text : String} (present : a ∈ m.attempts)
      (comparing : a.stage = .comparing call) (due : call.isDue s.now = true)
      (answered : (call.finish (.attempt a.id) s.trueTime store).1 = .ok reply)
      (near : Reading.skew s.clock reply.millis ≤ m.settings.graceMillis) :
      Move s store m (m.setStage a.id (.preparing (Call.place s.link s.now .ensureSchema)))
        (call.finish (.attempt a.id) s.trueTime store).2.1
        ((call.finish (.attempt a.id) s.trueTime store).2.2
          ++ [.log .debug text [], .began (.attempt a.id) .ensureSchema])
  /-- The table has been created, and the attempt succeeds unless the manager has been stopped. -/
  | finish {a : Attempt} {call : Call} {reply : Reply} (present : a ∈ m.attempts)
      (preparing : a.stage = .preparing call) (due : call.isDue s.now = true)
      (answered : (call.finish (.attempt a.id) s.trueTime store).1 = .ok reply) :
      Move s store m (m.finishStart store.label a.id).1
        (call.finish (.attempt a.id) s.trueTime store).2.1
        ((call.finish (.attempt a.id) s.trueTime store).2.2 ++ (m.finishStart store.label a.id).2)
  /-- A listing asks the store. -/
  | askListing (id : Nat) :
      Move s store m
        { m with listings := m.listings.map fun l =>
            if l.id = id then { l with call := some (Call.place s.link s.now .listAll) } else l }
        store [.began (.listing id) .listAll]
  /-- A listing is over. -/
  | endListing {l : Listing} {call : Call} (present : l ∈ m.listings) (called : l.call = some call)
      (due : call.isDue s.now = true) :
      Move s store m (m.endListing l.id) (call.finish (.listing l.id) s.trueTime store).2.1
        ((call.finish (.listing l.id) s.trueTime store).2.2
          ++ [.listingEnded l.id
            ((call.finish (.listing l.id) s.trueTime store).1.map Reply.recordList)])
  /-- A worker that has been told to end is gone. -/
  | reapWorker {w} (present : m.worker = some w) (aborted : w.aborted = true) :
      Move s store m (m.reap .worker).1 store (m.reap .worker).2
  /-- A scheduler that has been told to end is gone. -/
  | reapScheduler {sc} (present : m.scheduler = some sc) (aborted : sc.aborted = true) :
      Move s store m (m.reap .scheduler).1 store []

section Steps

variable {m m' : Manager} {s : Surroundings} {store store' : Backend} {notes : List Note}

theorem move_of_stepWorker (h : m.stepWorker s store = some (m', store', notes)) :
    m.Move s store m' store' notes := by
  unfold stepWorker at h
  obtain ⟨w, present, h⟩ := Option.bind_eq_some_iff.mp h
  obtain ⟨r, step, h⟩ := Option.map_eq_some_iff.mp h
  cases h
  exact .worker present (Worker.move_of_step step)

theorem move_of_stepScheduler (h : m.stepScheduler s store = some (m', store', notes)) :
    m.Move s store m' store' notes := by
  unfold stepScheduler at h
  obtain ⟨sc, present, h⟩ := Option.bind_eq_some_iff.mp h
  obtain ⟨⟨next, ticket⟩, step, h⟩ := Option.map_eq_some_iff.mp h
  cases ticket with
  | none =>
    cases h
    exact .pace present step
  | some ticket =>
    by_cases listened : m.queueOpen = true
    · have still : ({ m with scheduler := some next } : Manager).queueOpen = true := listened
      simp only [listened, if_true, send, still] at h
      cases h
      exact .request present step listened
    · simp only [listened, if_false, Bool.false_eq_true] at h
      cases h
      exact .retire present step (by simpa using listened)

theorem move_of_enterStart {id : Nat} (h : m.enterStart s store.label id = (m', notes)) :
    m.Move s store m' store notes := by
  unfold enterStart at h
  split at h
  · cases h
    exact .refuse id _
  · split at h
    · cases h
      exact .refuse id _
    · cases h
      exact .refuse id _
    · cases h
      exact .refuse id _
    · rename_i idle
      by_cases enabled : m.settings.enabled = true
      · simp only [enabled, if_true] at h
        cases h
        exact .enter idle enabled
      · simp only [enabled, if_false, Bool.false_eq_true] at h
        cases h
        exact .enterAlone idle (by simpa using enabled)

theorem move_of_stepAttempt {id : Nat} (h : m.stepAttempt s store id = some (m', store', notes)) :
    m.Move s store m' store' notes := by
  unfold stepAttempt at h
  split at h
  · simp at h
  · rename_i a found
    have present : a ∈ m.attempts := List.mem_of_find?_eq_some found
    obtain rfl : a.id = id := by simpa using List.find?_some found
    split at h
    · cases h
      exact move_of_enterStart rfl
    · rename_i call comparing
      have called : a.call? = some call := by simp [Attempt.call?, comparing]
      by_cases due : call.isDue s.now = true
      · simp only [due, if_true] at h
        cases result : (call.finish (.attempt a.id) s.trueTime store).1 with
        | error e =>
          simp only [result] at h
          cases h
          exact .fail present called due e [] (.inl rfl)
        | ok reply =>
          simp only [result, compareClocks] at h
          cases overflows : Reading.skewOverflow? s.clock reply.millis with
          | some overflow =>
            simp only [overflows] at h
            cases h
            exact .crash present comparing due result overflows
          | none =>
            simp only [overflows] at h
            by_cases apart : m.settings.graceMillis < Reading.skew s.clock reply.millis
            · simp only [apart, if_true] at h
              cases h
              exact .fail present called due _ _ (.inr rfl)
            · simp only [apart, if_false] at h
              cases h
              exact .compare present comparing due result (by omega)
      · simp [due] at h
    · rename_i call preparing
      have called : a.call? = some call := by simp [Attempt.call?, preparing]
      by_cases due : call.isDue s.now = true
      · simp only [due, if_true] at h
        cases result : (call.finish (.attempt a.id) s.trueTime store).1 with
        | error e =>
          simp only [result] at h
          cases h
          exact .fail present called due e [] (.inl rfl)
        | ok reply =>
          simp only [result] at h
          cases h
          exact .finish present preparing due result
      · simp [due] at h

theorem move_of_stepListing {id : Nat} (h : m.stepListing s store id = some (m', store', notes)) :
    m.Move s store m' store' notes := by
  unfold stepListing at h
  split at h
  · simp at h
  · rename_i l found
    have present : l ∈ m.listings := List.mem_of_find?_eq_some found
    obtain rfl : l.id = id := by simpa using List.find?_some found
    split at h
    · cases h
      exact .askListing l.id
    · rename_i call called
      by_cases due : call.isDue s.now = true
      · simp only [due, if_true] at h
        cases h
        exact .endListing present called due
      · simp [due] at h

/-- Every step of a task is a move of its manager. -/
theorem move_of_stepTask {k : TaskKind} (h : m.stepTask s store k = some (m', store', notes)) :
    m.Move s store m' store' notes := by
  cases k with
  | worker => exact move_of_stepWorker h
  | scheduler => exact move_of_stepScheduler h
  | attempt id => exact move_of_stepAttempt h
  | listing id => exact move_of_stepListing h

theorem move_of_reap {k : TaskKind} (aborted : m.isAborted k = true) :
    m.Move s store (m.reap k).1 store (m.reap k).2 := by
  cases k with
  | worker =>
    cases present : m.worker with
    | none => simp [isAborted, present] at aborted
    | some w => exact .reapWorker present (by simpa [isAborted, present] using aborted)
  | scheduler =>
    cases present : m.scheduler with
    | none => simp [isAborted, present] at aborted
    | some sc => exact .reapScheduler present (by simpa [isAborted, present] using aborted)
  | attempt id => simp [isAborted] at aborted
  | listing id => simp [isAborted] at aborted

end Steps

end Manager

end Leasehold
