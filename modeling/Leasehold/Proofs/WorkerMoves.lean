import Leasehold.Manager.Worker
import Leasehold.Proofs.Holdings

/-! # What a worker can do

`Worker.Move` lists the steps of a worker with the condition of each. Statements about workers go
by these cases and by what each operation does to slots, activity and confirmation; the step function
itself is opened here only.
-/

namespace Leasehold

namespace Call

theorem fate_of_answered {c : Call} {caller : Caller} {trueTime : Int} {store : Backend}
    {reply : Reply} (answered : (c.finish caller trueTime store).1 = .ok reply) :
    c.fate = .answer := by
  cases fate : c.fate with
  | answer => rfl
  | refuse => simp [finish, fate] at answered
  | lose =>
    simp only [finish, fate] at answered
    split at answered <;> simp at answered

theorem finish_ok {c : Call} {caller : Caller} {trueTime : Int} {store : Backend} {reply : Reply}
    (answered : (c.finish caller trueTime store).1 = .ok reply) :
    (store.perform (c.link.storeClock trueTime) c.request).1 = .ok reply
      ∧ (c.finish caller trueTime store).2.1
          = (store.perform (c.link.storeClock trueTime) c.request).2
      ∧ (c.finish caller trueTime store).2.2
          = .effect caller c.request :: claimLog store c.request
            ++ [.answered caller c.request reply] := by
  have fate := fate_of_answered answered
  simp only [finish, fate] at answered ⊢
  simp [answered, effectNotes]

theorem finish_held (c : Call) (caller : Caller) (trueTime : Int) {store : Backend}
    (keyed : store.Keyed) :
    (c.finish caller trueTime store).2.1.held = store.held
      ∨ (c.finish caller trueTime store).2.1.held = c.request.effect store.held
        ∧ Note.effect caller c.request ∈ (c.finish caller trueTime store).2.2 := by
  have carried {now : Int} : (store.perform now c.request).2.held = store.held
      ∨ (store.perform now c.request).2.held = c.request.effect store.held
        ∧ Note.effect caller c.request
          ∈ effectNotes store caller c.request (store.perform now c.request).1 := by
    cases result : (store.perform now c.request).1 with
    | ok reply => exact .inr ⟨Backend.held_perform keyed result, by simp [effectNotes]⟩
    | error e => exact .inl (by rw [Backend.perform_error result])
  unfold finish
  cases c.fate with
  | refuse => exact .inl rfl
  | answer | lose =>
    refine carried.imp id fun ⟨held, noted⟩ => ⟨held, List.mem_append_left _ noted⟩

theorem keyed_finish (c : Call) (caller : Caller) (trueTime : Int) {store : Backend}
    (keyed : store.Keyed) : (c.finish caller trueTime store).2.1.Keyed := by
  unfold finish
  cases c.fate with
  | refuse => exact keyed
  | answer | lose => exact Backend.keyed_perform keyed _ _

/-- What is noted when a call ends is its own effect, its outcome, and log lines. -/
theorem mem_finish {c : Call} {caller : Caller} {trueTime : Int} {store : Backend} {note : Note}
    (member : note ∈ (c.finish caller trueTime store).2.2) :
    note = .effect caller c.request ∨ (∃ reply, note = .answered caller c.request reply)
      ∨ (∃ e, note = .failed caller c.request e) ∨ ∃ level text fields, note = .log level text fields := by
  have log {note : Note} (h : note ∈ claimLog store c.request) :
      ∃ level text fields, note = .log level text fields := by
    unfold claimLog at h
    split at h
    · exact ⟨_, _, _, List.mem_singleton.mp h⟩
    · simp at h
  have noted {note : Note} {result : Except LeaseError Reply}
      (h : note ∈ effectNotes store caller c.request result) :
      note = .effect caller c.request ∨ ∃ level text fields, note = .log level text fields := by
    cases result with
    | ok reply => exact (List.mem_cons.mp h).imp id log
    | error e => simp [effectNotes] at h
  unfold finish at member
  cases fate : c.fate with
  | refuse =>
    simp only [fate, List.mem_singleton] at member
    exact .inr (.inr (.inl ⟨_, member⟩))
  | answer =>
    simp only [fate] at member
    rcases List.mem_append.mp member with h | h
    · rcases noted h with h | h
      · exact .inl h
      · exact .inr (.inr (.inr h))
    · rw [List.mem_singleton] at h
      split at h
      · exact .inr (.inl ⟨_, h⟩)
      · exact .inr (.inr (.inl ⟨_, h⟩))
  | lose =>
    simp only [fate] at member
    rcases List.mem_append.mp member with h | h
    · rcases noted h with h | h
      · exact .inl h
      · exact .inr (.inr (.inr h))
    · exact .inr (.inr (.inl ⟨_, List.mem_singleton.mp h⟩))

end Call

namespace Worker

/-- The batch that a worker adds commands to, if it takes commands. -/
def batch? (w : Worker) : Option Batch :=
  match w.activity with
  | .waiting => some .empty
  | .draining b => some b
  | _ => none

/-- The steps of a worker. -/
inductive Move (s : Surroundings) (w : Worker) :
    List Command → Backend → WorkerStep → Prop where
  /-- Takes a command and applies it. -/
  | take {c queue store b} (listening : w.batch? = some b) :
      Move s w (c :: queue) store
        ⟨(w.apply c b).1, queue, store, .applied c :: (w.apply c b).2⟩
  /-- Begins a cycle once nothing is left in the queue. -/
  | beginCycle {store b} (draining : w.activity = .draining b) :
      Move s w [] store ⟨(w.beginCycle s b.tickets).1, [], store, (w.beginCycle s b.tickets).2⟩
  /-- Asks the store to delete the row of a released lease. -/
  | beginRelease {queue store name b} (parting : w.activity = .parting name b) :
      Move s w queue store
        ⟨(w.beginRelease s name b).1, queue, store, (w.beginRelease s name b).2⟩
  /-- The store has dealt with a release. -/
  | endRelease {queue store r} (releasing : w.activity = .releasing r)
      (due : r.call.isDue s.now = true) :
      Move s w queue store
        ⟨(w.endRelease s r (r.call.finish .worker s.trueTime store).1).1, queue,
          (r.call.finish .worker s.trueTime store).2.1,
          (r.call.finish .worker s.trueTime store).2.2
            ++ (w.endRelease s r (r.call.finish .worker s.trueTime store).1).2⟩
  /-- The time for a release is over. -/
  | abandonRelease {queue store r} (releasing : w.activity = .releasing r)
      (pending : r.call.isDue s.now = false) (late : r.deadline ≤ s.now) :
      Move s w queue store
        ⟨(w.abandonRelease s r).1, queue, store, (w.abandonRelease s r).2⟩
  /-- The store has answered a question of a cycle. -/
  | resume {queue store c reply} (cycling : w.activity = .cycling c)
      (due : c.call.isDue s.now = true)
      (answered : (c.call.finish .worker s.trueTime store).1 = .ok reply) :
      Move s w queue store
        ⟨(w.resume s c reply).1, queue, (c.call.finish .worker s.trueTime store).2.1,
          (c.call.finish .worker s.trueTime store).2.2 ++ (w.resume s c reply).2⟩
  /-- A call of a cycle has failed. -/
  | failCycle {queue store c e} (cycling : w.activity = .cycling c)
      (due : c.call.isDue s.now = true)
      (failed : (c.call.finish .worker s.trueTime store).1 = .error e) :
      Move s w queue store
        ⟨(w.failCycle s store.label c e).1, queue,
          (c.call.finish .worker s.trueTime store).2.1,
          (c.call.finish .worker s.trueTime store).2.2 ++ (w.failCycle s store.label c e).2⟩
  /-- The time for a cycle is over. -/
  | overrun {queue store c} (cycling : w.activity = .cycling c)
      (pending : c.call.isDue s.now = false) (late : c.deadline ≤ s.now) :
      Move s w queue store
        ⟨(w.failCycle s store.label c (overdue c)).1, queue, store,
          .cancelled .worker c.call.request :: (w.failCycle s store.label c (overdue c)).2⟩

/-- Every step of a worker is one of these moves. -/
theorem move_of_step {w : Worker} {s : Surroundings} {queue : List Command} {store : Backend}
    {r : WorkerStep} (h : w.step s queue store = some r) : w.Move s queue store r := by
  cases activity : w.activity with
  | waiting =>
    simp only [step, activity] at h
    cases queue with
    | nil => simp at h
    | cons c queue =>
      cases Option.some.inj h
      exact .take (by simp [batch?, activity])
  | draining b =>
    simp only [step, activity] at h
    cases queue with
    | nil =>
      cases Option.some.inj h
      exact .beginCycle activity
    | cons c queue =>
      cases Option.some.inj h
      exact .take (by simp [batch?, activity])
  | parting name b =>
    simp only [step, activity] at h
    cases Option.some.inj h
    exact .beginRelease activity
  | releasing r =>
    simp only [step, activity] at h
    by_cases due : r.call.isDue s.now = true
    · rw [if_pos due] at h
      cases Option.some.inj h
      exact .endRelease activity due
    · rw [if_neg due] at h
      by_cases late : r.deadline ≤ s.now
      · rw [if_pos late] at h
        cases Option.some.inj h
        exact .abandonRelease activity (by simpa using due) late
      · simp [late] at h
  | cycling c =>
    simp only [step, activity] at h
    by_cases due : c.call.isDue s.now = true
    · rw [if_pos due] at h
      cases result : (c.call.finish .worker s.trueTime store).1 with
      | ok reply =>
        simp only [result] at h
        cases Option.some.inj h
        exact .resume activity due result
      | error e =>
        simp only [result] at h
        cases Option.some.inj h
        exact .failCycle activity due result
    · rw [if_neg due] at h
      by_cases late : c.deadline ≤ s.now
      · rw [if_pos late] at h
        cases Option.some.inj h
        exact .overrun activity (by simpa using due) late
      · simp [late] at h

theorem step_of_move {w : Worker} {s : Surroundings} {queue : List Command} {store : Backend}
    {r : WorkerStep} (move : w.Move s queue store r) : w.step s queue store = some r := by
  cases move with
  | @take c queue store b listening =>
    cases activity : w.activity with
    | waiting =>
      obtain rfl : Batch.empty = b := by simpa [batch?, activity] using listening
      simp [step, activity]
    | draining b' =>
      obtain rfl : b' = b := by simpa [batch?, activity] using listening
      simp [step, activity]
    | parting | releasing | cycling => simp [batch?, activity] at listening
  | beginCycle draining => simp [step, draining]
  | beginRelease parting => simp [step, parting]
  | endRelease releasing due => simp [step, releasing, due]
  | abandonRelease releasing pending late => simp [step, releasing, pending, late]
  | resume cycling due answered => simp [step, cycling, due, answered]
  | failCycle cycling due failed => simp [step, cycling, due, failed]
  | overrun cycling pending late => simp [step, cycling, pending, late]

/-! ## What a move leaves alone -/

theorem giveUp_of_due {w : Worker} {s : Surroundings} (due : w.mustGiveUp s = true) :
    (w.giveUp s).1 = { w with slots := w.slots.assign fun _ => false } := by
  simp [giveUp, due]

theorem giveUp_of_safe {w : Worker} {s : Surroundings} (safe : w.mustGiveUp s = false) :
    w.giveUp s = (w, []) := by
  simp [giveUp, safe]

theorem giveUp_eq (w : Worker) (s : Surroundings) :
    ∃ slots, (w.giveUp s).1 = { w with slots } := by
  cases due : w.mustGiveUp s with
  | true => exact ⟨_, giveUp_of_due due⟩
  | false => exact ⟨w.slots, by rw [giveUp_of_safe due]⟩

theorem apply_eq (w : Worker) (c : Command) (b : Batch) :
    ∃ slots activity, (w.apply c b).1 = { w with slots, activity } := by
  cases c with
  | register name id => exact ⟨_, _, rfl⟩
  | release name id =>
    simp only [apply, release]
    split
    · exact ⟨_, _, rfl⟩
    · split <;> exact ⟨_, _, rfl⟩
  | maintain ticket => exact ⟨_, _, rfl⟩

theorem purge_eq (w : Worker) (s : Surroundings) (c : Cycle) (names : List String) :
    ∃ activity, (w.purge s c names).1 = { w with activity } := by
  cases names with
  | nil => exact ⟨_, rfl⟩
  | cons name rest => exact ⟨_, rfl⟩

theorem failCycle_eq (w : Worker) (s : Surroundings) (label : String) (c : Cycle) (e : LeaseError) :
    (w.failCycle s label c e).1 = { (w.giveUp s).1 with activity := .waiting } := rfl

theorem abandonRelease_eq (w : Worker) (s : Surroundings) (r : Releasing) :
    (w.abandonRelease s r).1 = { (w.giveUp s).1 with activity := afterCommand r.batch } := rfl

theorem resume_eq (w : Worker) (s : Surroundings) (c : Cycle) (reply : Reply) :
    (c.stage ≠ .selecting ∧ ∃ activity, (w.resume s c reply).1 = { w with activity })
      ∨ c.stage = .selecting ∧ ∃ activity, (w.resume s c reply).1
        = { (w.reconcile s reply.nameList c.expiration).1 with activity } := by
  unfold resume
  split
  · exact .inl ⟨by simp [*], _, rfl⟩
  · refine .inl ⟨by simp [*], ?_⟩
    simp only
    split <;> exact ⟨_, rfl⟩
  · exact .inl ⟨by simp [*], _, rfl⟩
  · exact .inr ⟨by assumption, (w.reconcile s reply.nameList c.expiration).1.purge_eq s c _⟩
  · exact .inl ⟨by simp [*], w.purge_eq s c _⟩

theorem Move.aborted_eq {w : Worker} {s : Surroundings} {queue : List Command} {store : Backend}
    {r : WorkerStep} (h : w.Move s queue store r) : r.worker.aborted = w.aborted := by
  cases h with
  | @take c _ _ b listening =>
    obtain ⟨slots, activity, eq⟩ := w.apply_eq c b
    simp only [eq]
  | beginCycle draining => rfl
  | beginRelease parting => rfl
  | endRelease releasing due => rfl
  | abandonRelease releasing pending late =>
    obtain ⟨slots, eq⟩ := w.giveUp_eq s
    simp only [abandonRelease_eq, eq]
  | @resume _ _ c reply cycling due answered =>
    rcases w.resume_eq s c reply with ⟨_, activity, eq⟩ | ⟨_, activity, eq⟩ <;> rw [eq]
    rfl
  | failCycle cycling due failed =>
    obtain ⟨slots, eq⟩ := w.giveUp_eq s
    simp only [failCycle_eq, eq]
  | overrun cycling pending late =>
    obtain ⟨slots, eq⟩ := w.giveUp_eq s
    simp only [failCycle_eq, eq]

end Worker

end Leasehold
