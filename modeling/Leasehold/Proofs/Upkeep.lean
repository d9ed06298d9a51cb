import Leasehold.Proofs.Events
import Leasehold.Proofs.Retention

/-! # The next cycle

What a cycle does for a manager, it does within one pause: a cycle is under way, or has been asked for,
or the last one is not longer ago than the scheduler sleeps. `Manager.UpToDate` says so for everything
that is done when a cycle gets beyond one of its stages; every move of a manager whose calls are answered
at once keeps it.
-/

namespace Leasehold

/-- The place of a stage in a cycle. -/
def Stage.index : Stage → Nat
  | .collecting => 0
  | .refreshing => 1
  | .claiming => 2
  | .selecting => 3
  | .purging _ _ => 4

namespace Command

/-- A cycle has been asked for. -/
def Asked (queue : List Command) : Prop := ∃ ticket, .maintain ticket ∈ queue

/-- After every handle that is to be registered, a cycle is asked for. -/
def Kicked : List Command → Prop
  | [] => True
  | c :: queue => (c.newcomer? ≠ none → Asked queue) ∧ Kicked queue

theorem Asked.append_left {queue : List Command} (asked : Asked queue) (more : List Command) :
    Asked (queue ++ more) := by
  obtain ⟨ticket, member⟩ := asked
  exact ⟨ticket, List.mem_append_left _ member⟩

theorem Asked.append_right {more : List Command} (asked : Asked more) (queue : List Command) :
    Asked (queue ++ more) := by
  obtain ⟨ticket, member⟩ := asked
  exact ⟨ticket, List.mem_append_right _ member⟩

theorem Kicked.append {queue more : List Command} (first : Kicked queue) (last : Kicked more) :
    Kicked (queue ++ more) := by
  induction queue with
  | nil => exact last
  | cons c queue ih =>
    obtain ⟨kick, rest⟩ := first
    exact ⟨fun registers => (kick registers).append_left more, ih rest⟩

theorem kicked_of_known {queue : List Command} (known : queue.filterMap Command.newcomer? = []) :
    Kicked queue := by
  induction queue with
  | nil => trivial
  | cons c queue ih =>
    have none := List.filterMap_eq_nil_iff.mp known
    refine ⟨fun registers => absurd (none c List.mem_cons_self) registers, ih ?_⟩
    exact List.filterMap_eq_nil_iff.mpr fun c' member => none c' (List.mem_cons_of_mem _ member)

end Command

open Command (Asked Kicked)

namespace Worker

variable {w : Worker} {s : Surroundings} {queue : List Command} {store : Backend} {r : WorkerStep}
  {n : Nat}

/-- A cycle is about to begin, or is under way and has not got beyond a stage. -/
def Due (n : Nat) (w : Worker) : Prop :=
  (∃ b, w.carried? = some b ∧ b.wanted = true)
    ∨ ∃ c, w.activity = .cycling c ∧ c.stage.index ≤ n

theorem due_of_carried {b : Batch} (carried : w.carried? = some b) (wanted : b.wanted = true) :
    w.Due n := .inl ⟨b, carried, wanted⟩

theorem due_afterCommand {b : Batch} (idle : w.activity = afterCommand b) (wanted : b.wanted = true) :
    w.Due n := by
  apply due_of_carried (b := b) _ wanted
  simp [carried?, idle, afterCommand, wanted]

theorem Due.listening {b : Batch} (due : w.Due n) (listening : w.batch? = some b) :
    b.wanted = true := by
  cases activity : w.activity with
  | draining b' =>
    obtain rfl : b' = b := by simpa [batch?, activity] using listening
    rcases due with ⟨b, carried, wanted⟩ | ⟨c, cycling, _⟩
    · obtain rfl : b' = b := by simpa [carried?, activity] using carried
      exact wanted
    · cases activity.symm.trans cycling
  | waiting => simp [Due, carried?, activity] at due
  | parting | releasing | cycling => simp [batch?, activity] at listening

theorem due_apply {c : Command} {b : Batch} (wanted : b.wanted = true) : (w.apply c b).1.Due n := by
  rcases w.apply_activity c b with ⟨idle, _⟩ | ⟨⟨name, parting, _⟩, _⟩ | ⟨ticket, _, draining⟩
  · exact due_afterCommand idle wanted
  · exact due_of_carried (by simp [carried?, parting]) wanted
  · have carried : (w.apply c b).1.carried? = some ⟨b.tickets ++ ticket.toList, true⟩ := by
      simp [carried?, draining]
    exact due_of_carried carried rfl

/-- A cycle that is expected is expected still, or goes on after an answer. -/
theorem Move.expects (move : w.Move s queue store r)
    (prompt : ∀ call, w.call? = some call → call.Prompt s.now) (ready : store.isReady = true)
    (expects : Asked queue ∨ w.Due n) : (Asked r.queue ∨ r.worker.Due n)
      ∨ ∃ c reply, w.activity = .cycling c ∧ c.stage.index ≤ n
        ∧ (c.call.finish .worker s.trueTime store).1 = .ok reply
        ∧ r.worker = (w.resume s c reply).1
        ∧ r.store = (c.call.finish .worker s.trueTime store).2.1 := by
  cases move with
  | @take c queue store b listening =>
    left
    rcases expects with ⟨ticket, member⟩ | due
    · rcases List.mem_cons.mp member with rfl | later
      · exact .inr (due_of_carried rfl rfl)
      · exact .inl ⟨ticket, later⟩
    · exact .inr (due_apply (due.listening listening))
  | beginCycle draining => exact .inl (.inr (.inr ⟨_, rfl, Nat.zero_le n⟩))
  | @beginRelease queue store name b parting =>
    left
    refine expects.imp_right fun due => ?_
    rcases due with ⟨b', carried, wanted⟩ | ⟨c, cycling, _⟩
    · obtain rfl : b = b' := by simpa [carried?, parting] using carried
      exact due_of_carried rfl wanted
    · cases parting.symm.trans cycling
  | @endRelease queue store r releasing due =>
    left
    refine expects.imp_right fun due => ?_
    rcases due with ⟨b', carried, wanted⟩ | ⟨c, cycling, _⟩
    · obtain rfl : r.batch = b' := by simpa [carried?, releasing] using carried
      exact due_afterCommand rfl wanted
    · cases releasing.symm.trans cycling
  | @abandonRelease _ _ r releasing pending late =>
    exact absurd pending (prompt r.call (by simp [call?, releasing])).not_pending
  | @resume queue store c reply cycling due answered =>
    rcases expects with asked | ⟨b, carried, _⟩ | ⟨c', cycling', early⟩
    · exact .inl (.inl asked)
    · simp [carried?, cycling] at carried
    · cases cycling.symm.trans cycling'
      exact .inr ⟨c, reply, cycling, early, answered, rfl, rfl⟩
  | @failCycle _ _ c e cycling due failed =>
    exact absurd failed ((prompt c.call (by simp [call?, cycling])).not_failed ready _ _ e)
  | @overrun _ _ c cycling pending late =>
    exact absurd pending (prompt c.call (by simp [call?, cycling])).not_pending

/-- A claim is made for the names of all slots that are not held. -/
def Claims (owner : String) (w : Worker) : Prop := ∀ c, w.activity = .cycling c → c.stage = .claiming →
  c.call.request = .claimAbsent w.slots.wanted owner c.expiration

/-- A collection is made of the rows that have expired by now. -/
def Collects (clock : Int) (w : Worker) : Prop := ∀ c, w.activity = .cycling c →
  c.stage = .collecting → c.call.request = .deleteExpired clock

/-- What a step leaves a worker waiting for, if it is a cycle: the next stage of the one before, or the
    first stage of a new one. -/
theorem Move.next_question (move : w.Move s queue store r) :
    r.worker.Claims s.owner ∧ r.worker.Collects s.clock := by
  have idle {w' : Worker} (idle : ∀ c, w'.activity ≠ .cycling c) :
      w'.Claims s.owner ∧ w'.Collects s.clock :=
    ⟨fun c cycling => absurd cycling (idle c), fun c cycling => absurd cycling (idle c)⟩
  have purged (w : Worker) (c : Cycle) (names : List String) :
      (w.purge s c names).1.Claims s.owner ∧ (w.purge s c names).1.Collects s.clock := by
    cases names with
    | nil => exact idle (fun c cycling => by cases cycling)
    | cons name rest =>
      refine ⟨?_, ?_⟩
      · rintro c' ⟨⟩ ⟨⟩
      · rintro c' ⟨⟩ ⟨⟩
  cases move with
  | @take c _ _ b listening =>
    refine idle fun c' cycling => ?_
    rcases w.apply_activity c b with ⟨eq, _⟩ | ⟨⟨name, eq, _⟩, _⟩ | ⟨ticket, _, eq⟩
    · exact absurd (eq.symm.trans cycling) (afterCommand_ne_cycling b c')
    · cases eq.symm.trans cycling
    · cases eq.symm.trans cycling
  | beginCycle draining =>
    refine ⟨?_, ?_⟩
    · rintro c ⟨⟩ ⟨⟩
    · rintro c ⟨⟩ ⟨⟩
      rfl
  | beginRelease parting => exact idle (fun c cycling => by cases cycling)
  | @endRelease _ _ r releasing due => exact idle (afterCommand_ne_cycling r.batch)
  | @abandonRelease _ _ r releasing pending late => exact idle (afterCommand_ne_cycling r.batch)
  | @resume _ _ c reply cycling due answered =>
    have asking {stage : Stage} {request : Request} (later : stage ≠ .collecting)
        (claims : stage = .claiming → request = .claimAbsent w.slots.wanted s.owner c.expiration) :
        (w.askNext s c stage request).1.Claims s.owner
          ∧ (w.askNext s c stage request).1.Collects s.clock := by
      refine ⟨?_, ?_⟩
      · rintro c' ⟨⟩ claiming
        exact claims claiming
      · rintro c' ⟨⟩ collecting
        exact absurd collecting later
    simp only [Worker.resume]
    split
    · exact asking (by simp) (by simp)
    · split
      · exact asking (by simp) (by simp)
      · exact asking (by simp) fun _ => rfl
    · exact asking (by simp) (by simp)
    · exact purged _ _ _
    · exact purged _ _ _
  | failCycle cycling due failed => exact idle (fun c cycling => by cases cycling)
  | overrun cycling pending late => exact idle (fun c cycling => by cases cycling)

theorem mem_wanted {slots : Slots} {name : String} {slot : Slot}
    (found : slots.find? name = some slot) (free : slot.acquired = false) : name ∈ slots.wanted :=
  List.mem_map.mpr ⟨(name, slot), List.mem_filter.mpr ⟨Keyed.mem_of_lookup found, by simp [free]⟩, rfl⟩

/-- While a cycle has not got beyond its claim, it goes on to claim every lease that is not held, or has
    just made sure that there is a row for it. -/
theorem claims_of_answer {c : Cycle} {reply : Reply} (claims : w.Claims s.owner)
    (keyed : store.Keyed) (cycling : w.activity = .cycling c) (early : c.stage.index ≤ 2)
    (answered : (c.call.finish .worker s.trueTime store).1 = .ok reply) {name : String} {slot : Slot}
    (found : w.slots.find? name = some slot) (free : slot.acquired = false) :
    (w.resume s c reply).1.Due 2
      ∨ ((c.call.finish .worker s.trueTime store).2.1.held name).isSome = true := by
  have wanted := mem_wanted found free
  cases stage : c.stage with
  | collecting =>
    simp only [Worker.resume, stage]
    exact .inl (.inr ⟨_, rfl, by simp [Stage.index]⟩)
  | refreshing =>
    have some : w.slots.wanted.isEmpty = false := by
      cases all : w.slots.wanted with
      | nil => simp [all] at wanted
      | cons first rest => rfl
    simp only [Worker.resume, stage, some]
    exact .inl (.inr ⟨_, rfl, by simp [Stage.index]⟩)
  | claiming =>
    obtain ⟨performed, store_eq, _⟩ := Call.finish_ok answered
    rw [store_eq, Backend.held_perform keyed performed, claims c cycling stage]
    simp [Request.effect, wanted]
  | selecting => simp [stage, Stage.index] at early
  | purging => simp [stage, Stage.index] at early

/-- What is not held was not held before, or a cycle is asked for after it has been registered. -/
theorem Move.unacquired (move : w.Move s queue store r) (sound : w.Sound s)
    (prompt : ∀ call, w.call? = some call → call.Prompt s.now) (ready : store.isReady = true)
    (keyed : store.Keyed) (covered : w.Covered s.owner store.held) (kicked : Kicked queue)
    {name : String} {slot : Slot} (found : r.worker.slots.find? name = some slot)
    (free : slot.acquired = false) : Asked r.queue
      ∨ ∃ old, w.slots.find? name = some old ∧ old.acquired = false := by
  cases move with
  | @take c queue store b listening =>
    cases c with
    | register other id =>
      change (w.slots.insert other ⟨id, false⟩).find? name = some slot at found
      by_cases same : name = other
      · exact .inl (kicked.1 (by simp [Command.newcomer?]))
      · rw [Slots.find?_insert_of_ne _ _ same] at found
        exact .inr ⟨slot, found, free⟩
    | release other id =>
      simp only [apply, release] at found
      split at found
      · exact .inr ⟨slot, found, free⟩
      · split at found
        · change (w.slots.erase other).find? name = some slot at found
          by_cases same : name = other
          · rw [same, Slots.find?_erase_self] at found
            cases found
          · rw [Slots.find?_erase_of_ne _ same] at found
            exact .inr ⟨slot, found, free⟩
        · exact .inr ⟨slot, found, free⟩
    | maintain ticket => exact .inr ⟨slot, found, free⟩
  | beginCycle | beginRelease | endRelease => exact .inr ⟨slot, found, free⟩
  | @abandonRelease _ _ r releasing pending late =>
    exact absurd pending (prompt r.call (by simp [call?, releasing])).not_pending
  | @resume _ _ c reply cycling due answered =>
    right
    rcases w.resume_eq s c reply with ⟨_, activity, eq⟩ | ⟨selecting, activity, eq⟩
    · rw [eq] at found
      exact ⟨slot, found, free⟩
    · rw [eq] at found
      change (w.slots.assign reply.nameList.contains).find? name = some slot at found
      rw [Slots.find?_assign] at found
      obtain ⟨old, there, rfl⟩ := Option.map_eq_some_iff.mp found
      refine ⟨old, there, ?_⟩
      by_contra held
      have owned := covered.owned sound keyed cycling selecting answered there (by simpa using held)
      exact absurd (owned.symm.trans free) (by simp)
  | @failCycle _ _ c e cycling due failed =>
    exact absurd failed ((prompt c.call (by simp [call?, cycling])).not_failed ready _ _ e)
  | @overrun _ _ c cycling pending late =>
    exact absurd pending (prompt c.call (by simp [call?, cycling])).not_pending

end Worker

namespace Scheduler

variable {sc next : Scheduler} {now pause t : Nat} {interval : Duration} {ticket : Option Nat}

/-- What was done at time `t` is done again within a pause: the scheduler wakes within one, or has not
    let any time pass. -/
def Since (now pause t : Nat) (sc : Scheduler) : Prop :=
  match sc.pacing with
  | .requesting => True
  | .awaiting _ | .acknowledged => now ≤ t
  | .sleeping wake => wake ≤ t + pause

theorem ticket_of_requesting (requesting : sc.pacing = .requesting)
    (step : sc.step now interval = some (next, ticket)) : ∃ t, ticket = some t := by
  simp only [Scheduler.step, requesting, Option.some.injEq, Prod.mk.injEq] at step
  exact ⟨_, step.2.symm⟩

theorem Since.step (since : sc.Since now interval.ceilMillis t)
    (step : sc.step now interval = some (next, ticket)) :
    next.Since now interval.ceilMillis t ∨ ∃ t', ticket = some t' := by
  cases pacing : sc.pacing with
  | requesting => exact .inr (ticket_of_requesting pacing step)
  | awaiting ticket => simp [Scheduler.step, pacing] at step
  | acknowledged =>
    simp only [Since, pacing] at since
    simp only [Scheduler.step, pacing] at step
    cases step
    exact .inl (Nat.add_le_add_right since _)
  | sleeping wake =>
    simp only [Scheduler.step, pacing] at step
    split at step
    · cases step
      exact .inl trivial
    · cases step

theorem Since.hear (since : sc.Since now pause t) (notes : List Note) :
    (notes.foldl Scheduler.hear sc).Since now pause t := by
  rcases sc.hear_cases notes with ⟨unheard, _⟩ | ⟨⟨ticket, waits, _⟩, heard⟩
  · rw [unheard]
    exact since
  · simp only [Since, waits] at since
    simp only [Since, heard]
    exact since

theorem since_now (soon : ∀ wake, sc.pacing = .sleeping wake → wake ≤ now + pause) :
    sc.Since now pause now := by
  unfold Since
  split
  · trivial
  · exact Nat.le_refl now
  · exact Nat.le_refl now
  · rename_i wake sleeps
    exact soon wake sleeps

end Scheduler

namespace Manager

variable {m m' : Manager} {s s' : Surroundings} {store b : Backend} {notes : List Note} {n : Nat}
  {done done' : Nat → Prop}

/-- A manager whose calls are answered at once. -/
structure Served (s : Surroundings) (store : Backend) (m : Manager) : Prop where
  staged : m.Staged
  modest : m.Modest
  attended : m.Attended
  sound : ∀ w, m.worker = some w → w.Sound s
  prompt : ∀ w call, m.worker = some w → w.call? = some call → call.Prompt s.now
  ready : m.worker.isSome = true → store.isReady = true

theorem Retentive.served (h : m.Retentive s store) : m.Served s store where
  staged := h.undisturbed.staged
  modest := h.modest
  attended := h.undisturbed.attended
  sound := h.sound
  prompt := h.undisturbed.prompt
  ready := h.undisturbed.ready

/-- A cycle that has not got beyond a stage is under way, about to begin, or asked for. -/
def Expects (n : Nat) (m : Manager) : Prop :=
  Asked m.queue ∨ (∃ w, m.worker = some w ∧ w.Due n)
    ∨ ∃ sc, m.scheduler = some sc ∧ sc.pacing = .requesting

/-- The worker goes on with a cycle that had not got beyond a stage. -/
def GoesOn (s : Surroundings) (store : Backend) (n : Nat) (m m' : Manager) (b : Backend) : Prop :=
  ∃ w c reply, m.worker = some w ∧ w.activity = .cycling c ∧ c.stage.index ≤ n
    ∧ (c.call.finish .worker s.trueTime store).1 = .ok reply
    ∧ m'.worker = some (w.resume s c reply).1
    ∧ b = (c.call.finish .worker s.trueTime store).2.1

/-- Either a cycle is expected that has yet to get beyond a stage, or the last one did so within a
    pause before the next. -/
def UpToDate (s : Surroundings) (n : Nat) (done : Nat → Prop) (m : Manager) : Prop :=
  m.Expects n ∨ ∃ t, done t ∧ ∀ sc, m.scheduler = some sc → sc.Since s.now (pause s) t

theorem expects_of_requesting {sc : Scheduler} (present : m.scheduler = some sc)
    (requesting : sc.pacing = .requesting) : m.Expects n := .inr (.inr ⟨sc, present, requesting⟩)

theorem expects_of_ticket {t : Nat}
    (queue : m'.queue = m.queue ++ (some t |>.map fun t => Command.maintain (some t)).toList) :
    m'.Expects n := by
  left
  rw [queue]
  exact Command.Asked.append_right ⟨some t, List.mem_singleton_self _⟩ m.queue

/-- A cycle that is expected stays expected until it goes on. -/
theorem Expects.move (expects : m.Expects n) (served : m.Served s store)
    (move : m.Move s store m' b notes) (running' : m'.lifecycle = .running) :
    m'.Expects n ∨ GoesOn s store n m m' b := by
  obtain ⟨worker', scheduler'⟩ := (served.staged.move move).running running'
  obtain ⟨sc', there'⟩ := Option.isSome_iff_exists.mp scheduler'
  cases move.live served.staged served.modest with
  | launch _ worker scheduler ready =>
    exact .inl (expects_of_requesting there' (scheduler sc' there'))
  | @work k r present step worker scheduler queue =>
    have ready := served.ready (by simp [present])
    have near (near : Asked m.queue ∨ k.Due n) : m'.Expects n ∨ GoesOn s store n m m' r.store := by
      rcases step.expects (served.prompt k · present) ready near with
        (asked | due) | ⟨c, reply, cycling, early, answered, eq, eq'⟩
      · exact .inl (.inl (queue ▸ asked))
      · exact .inl (.inr (.inl ⟨_, worker, due⟩))
      · exact .inr ⟨k, c, reply, present, cycling, early, answered, eq ▸ worker, eq'⟩
    rcases expects with asked | ⟨k', present', due⟩ | ⟨sc, there, requesting⟩
    · exact near (.inl asked)
    · cases present.symm.trans present'
      exact near (.inr due)
    · have deaf : r.notes.foldl Scheduler.hear sc = sc :=
        sc.pacing_hear_of_other (by simp [requesting])
      rw [there, Option.map_some, deaf] at scheduler
      exact .inl (expects_of_requesting scheduler requesting)
  | @pace sc next ticket _ present step worker scheduler queue =>
    left
    rcases expects with asked | ⟨k, there, due⟩ | ⟨sc₀, there, requesting⟩
    · exact .inl (queue ▸ asked.append_left _)
    · exact .inr (.inl ⟨k, worker.trans there, due⟩)
    · cases present.symm.trans there
      obtain ⟨t, rfl⟩ := Scheduler.ticket_of_requesting requesting step
      exact expects_of_ticket queue
  | @aside _ _ k aborted present worker scheduler queue =>
    left
    obtain ⟨more, queue⟩ := queue
    rcases expects with asked | ⟨k', there, due⟩ | ⟨sc, there, requesting⟩
    · exact .inl (queue ▸ asked.append_left more)
    · cases present.symm.trans there
      exact .inr (.inl ⟨_, worker, due⟩)
    · obtain ⟨sc₀, there₀, pacing⟩ := scheduler sc' there'
      cases there.symm.trans there₀
      exact expects_of_requesting there' (pacing.trans requesting)
  | gone none _ => simp [none] at worker'

theorem running_of_move (staged : m.Staged) (move : m.Move s store m' b notes)
    (running' : m'.lifecycle = .running) {k : Worker} (present : m.worker = some k) :
    m.lifecycle = .running := by
  rcases staged.worker k present with ⟨running, _⟩ | ⟨stopped, _⟩
  · exact running
  · cases (move.stopped stopped).symm.trans running'

/-- What the cycles of a manager do is kept up in every move. -/
theorem UpToDate.move (upToDate : m.lifecycle = .running → m.UpToDate s n done)
    (served : m.Served s store) (settings : m.settings = s.settings)
    (move : m.Move s store m' b notes) (running' : m'.lifecycle = .running)
    (soon : ∀ sc wake, m'.scheduler = some sc → sc.pacing = .sleeping wake → wake ≤ s.now + pause s)
    (kept : ∀ t, done t → done' t)
    (goesOn : GoesOn s store n m m' b → m'.Expects n ∨ done' s.now) : m'.UpToDate s n done' := by
  obtain ⟨worker', scheduler'⟩ := (served.staged.move move).running running'
  obtain ⟨sc', there'⟩ := Option.isSome_iff_exists.mp scheduler'
  have paused : m.settings.interval.ceilMillis = pause s := by rw [settings, ← pause]
  have awaited (expects : m.Expects n) : m'.UpToDate s n done' := by
    rcases (expects.move served move running').imp_right goesOn with expects | expects | now
    · exact .inl expects
    · exact .inl expects
    · exact .inr ⟨s.now, now, fun sc there => Scheduler.since_now (soon sc · there)⟩
  cases move.live served.staged served.modest with
  | launch _ worker scheduler ready =>
    exact .inl (expects_of_requesting there' (scheduler sc' there'))
  | @work k r present step worker scheduler queue =>
    rcases upToDate (running_of_move served.staged move running' present) with
      expects | ⟨t, before, since⟩
    · exact awaited expects
    · refine .inr ⟨t, kept t before, fun sc there => ?_⟩
      rw [scheduler] at there
      obtain ⟨sc₀, there₀, rfl⟩ := Option.map_eq_some_iff.mp there
      exact (since sc₀ there₀).hear r.notes
  | @pace sc next ticket _ present step worker scheduler queue =>
    obtain ⟨k, there⟩ := Option.isSome_iff_exists.mp worker'
    rcases upToDate (running_of_move served.staged move running' (worker ▸ there)) with
      expects | ⟨t, before, since⟩
    · exact awaited expects
    · rcases (paused ▸ since sc present : sc.Since _ m.settings.interval.ceilMillis t).step step with
        since' | ⟨ticket, rfl⟩
      · refine .inr ⟨t, kept t before, fun sc' there => ?_⟩
        rw [scheduler] at there
        obtain rfl := Option.some.inj there
        exact paused ▸ since'
      · exact .inl (expects_of_ticket queue)
  | @aside _ _ k aborted present worker scheduler queue =>
    rcases upToDate (running_of_move served.staged move running' present) with
      expects | ⟨t, before, since⟩
    · exact awaited expects
    · refine .inr ⟨t, kept t before, fun sc there => ?_⟩
      obtain ⟨sc₀, there₀, pacing⟩ := scheduler sc there
      have since₀ := since sc₀ there₀
      simp only [Scheduler.Since, pacing] at since₀ ⊢
      exact since₀
  | gone none _ => simp [none] at worker'

theorem Resting.not_expects (rests : m.Resting s store) (served : m.Served s store)
    (running : m.lifecycle = .running) : ¬ m.Expects n := by
  obtain ⟨worker, _⟩ := served.staged.running running
  obtain ⟨k, present⟩ := Option.isSome_iff_exists.mp worker
  obtain ⟨waiting, sc, wake, there, sleeps, _⟩ :=
    rests.sleeping served.staged served.attended present (served.prompt k · present)
  have still := (rests.worker k present).2
  rintro (⟨ticket, queued⟩ | ⟨k', present', due⟩ | ⟨sc', there', requesting⟩)
  · cases queue : m.queue with
    | nil => simp [queue] at queued
    | cons c rest => simp [Worker.step, waiting, queue] at still
  · cases present.symm.trans present'
    simp [Worker.Due, Worker.carried?, waiting] at due
  · cases there.symm.trans there'
    cases sleeps.symm.trans requesting

theorem Resting.queue_nil (rests : m.Resting s store) (served : m.Served s store) {k : Worker}
    (present : m.worker = some k) : m.queue = [] := by
  obtain ⟨waiting, _⟩ :=
    rests.sleeping served.staged served.attended present (served.prompt k · present)
  have still := (rests.worker k present).2
  cases queue : m.queue with
  | nil => rfl
  | cons c rest => simp [Worker.step, waiting, queue] at still

theorem UpToDate.resting (upToDate : m.UpToDate s n done) (rests : m.Resting s store)
    (served : m.Served s store) (running : m.lifecycle = .running) :
    ∃ t, done t ∧ s.now < t + pause s := by
  rcases upToDate with expects | ⟨t, before, since⟩
  · exact absurd expects (rests.not_expects served running)
  · obtain ⟨k, present⟩ := Option.isSome_iff_exists.mp (served.staged.running running).1
    obtain ⟨_, sc, wake, there, sleeps, ahead⟩ :=
      rests.sleeping served.staged served.attended present (served.prompt k · present)
    have soon := since sc there
    simp only [Scheduler.Since, sleeps] at soon
    exact ⟨t, before, by omega⟩

theorem UpToDate.tick (upToDate : m.UpToDate s n done) (rests : m.Resting s store)
    (served : m.Served s store) (running : m.lifecycle = .running)
    (settings : s'.settings = s.settings) (kept : ∀ t, done t → done' t) :
    m.UpToDate s' n done' := by
  have paused : pause s' = pause s := by rw [pause, settings, ← pause]
  rcases upToDate with expects | ⟨t, before, since⟩
  · exact absurd expects (rests.not_expects served running)
  · obtain ⟨k, present⟩ := Option.isSome_iff_exists.mp (served.staged.running running).1
    obtain ⟨_, sc, wake, there, sleeps, _⟩ :=
      rests.sleeping served.staged served.attended present (served.prompt k · present)
    refine .inr ⟨t, kept t before, fun sc' there' => ?_⟩
    cases there.symm.trans there'
    have soon := since sc there
    simp only [Scheduler.Since, sleeps] at soon ⊢
    rw [paused]
    exact soon

theorem Balanced.ledger_eq (balanced : m.Balanced) {k : Worker} (present : m.worker = some k)
    (queue : m.queue = []) : k.slots.ledger = m.registry.active := by
  have replayed := balanced.replayed (queueOpen_of_worker present)
  rw [queue, tracked, present] at replayed
  exact replayed

theorem Balanced.slot_of_handle (balanced : m.Balanced) (truthful : m.Truthful) {k : Worker}
    (present : m.worker = some k) (queue : m.queue = []) {h : Handle} (member : h ∈ m.handles)
    (held : h.released = false) :
    ∃ slot, k.slots.find? h.name = some slot ∧ slot.acquired = h.isAcquired := by
  have listed := balanced.lookup_active member held
  rw [← balanced.ledger_eq present queue, Slots.lookup_ledger] at listed
  obtain ⟨slot, found, number⟩ := Option.map_eq_some_iff.mp listed
  refine ⟨slot, found, ?_⟩
  have shown := truthful.shown k present h member
  simp [Handle.isAcquired, held, shown, Slots.holds, found, number]

theorem Balanced.handle_of_slot (balanced : m.Balanced) {k : Worker} (present : m.worker = some k)
    (queue : m.queue = []) {name : String} (there : (k.slots.find? name).isSome = true) :
    ∃ h ∈ m.handles, h.name = name ∧ h.released = false := by
  apply (balanced.active_iff name).mp
  rw [← balanced.ledger_eq present queue, Slots.lookup_ledger, Option.isSome_map]
  exact there

/-! ## Leases that are not held -/

/-- Every handle that is to be registered is followed by a request for a cycle. -/
def Kicks (m : Manager) : Prop := m.queueOpen = true → Kicked m.queue

theorem kicks_fresh (owner : String) (settings : Settings) : (fresh owner settings).Kicks :=
  fun _ => trivial

theorem Kicks.move (kicks : m.Kicks) (staged : m.Staged) (move : m.Move s store m' b notes) :
    m'.Kicks := by
  intro opened'
  have known {c : Command} (known : c.newcomer? = none) : Kicked [c] :=
    Command.kicked_of_known (by simp [known])
  cases move.shift staged with
  | create name =>
    cases opened : m.queueOpen with
    | false =>
      rw [createHandle_of_closed opened] at opened' ⊢
      exact kicks opened'
    | true =>
      cases taken : m.registry.active.lookup name with
      | some id =>
        rw [createHandle_of_taken opened (by simp [taken])]
        exact kicks opened
      | none =>
        rw [createHandle_of_free opened taken]
        refine (kicks opened).append ⟨fun _ => ⟨none, List.mem_singleton_self _⟩, known rfl⟩
  | release id =>
    obtain ⟨active, handles, more, none, eq⟩ := m.releaseHandle_parts id
    rw [eq] at opened' ⊢
    exact (kicks opened').append (Command.kicked_of_known none)
  | work present step =>
    have before := kicks (queueOpen_of_worker present)
    rw [publishAll_eq]
    change Kicked _
    rcases step.routine with ⟨same, _⟩ | ⟨c, rest, eq, _⟩
    · exact same ▸ before
    · rw [eq] at before
      exact before.2
  | request opened running => exact (kicks opened).append (known rfl)
  | pace running => exact kicks opened'
  | stage staging =>
    obtain ⟨opened, same⟩ := staging.queue opened'
    exact same ▸ kicks opened
  | reap stopped idle lost closed =>
    rw [(keeps_dropQueue _).opened opened' |>.1] at closed
    cases closed

theorem Move.unacquired (move : m.Move s store m' b notes) (served : m.Served s store)
    (kicks : m.Kicks) (keyed : store.Keyed)
    (covered : ∀ w, m.worker = some w → w.Covered s.owner store.held) {k' : Worker}
    (present' : m'.worker = some k') {name : String} {slot : Slot}
    (found : k'.slots.find? name = some slot) (free : slot.acquired = false) :
    Asked m'.queue ∨ ∃ k old, m.worker = some k ∧ k.slots.find? name = some old
      ∧ old.acquired = false := by
  cases move.live served.staged served.modest with
  | launch _ worker scheduler ready =>
    rw [worker] at present'
    cases present'
    cases found
  | @work k r present step worker scheduler queue =>
    rw [worker] at present'
    obtain rfl := Option.some.inj present'
    rw [queue]
    refine (step.unacquired (served.sound k present) (served.prompt k · present)
      (served.ready (by simp [present])) keyed (covered k present)
      (kicks (queueOpen_of_worker present)) found free).imp_right ?_
    rintro ⟨old, there, free⟩
    exact ⟨k, old, present, there, free⟩
  | pace present step worker scheduler queue =>
    exact .inr ⟨k', slot, worker.symm.trans present', found, free⟩
  | @aside _ _ k aborted present worker scheduler queue =>
    rw [worker] at present'
    obtain rfl := Option.some.inj present'
    exact .inr ⟨k, slot, present, found, free⟩
  | gone none _ => cases none.symm.trans present'

/-- The worker of a manager claims what is not held, and collects what has expired by now. -/
def Asks (s : Surroundings) (m : Manager) : Prop :=
  ∀ w, m.worker = some w → w.Claims s.owner ∧ w.Collects s.clock

theorem Asks.move (asks : m.Asks s) (move : m.Move s store m' b notes) : m'.Asks s := by
  intro k present
  refine move.worker_keeps (P := fun w => w.Claims s.owner ∧ w.Collects s.clock) ?_ ?_ ?_ asks present
  · intro aborted
    constructor
    · intro c cycling
      cases cycling
    · intro c cycling
      cases cycling
  · exact fun w aborted asks => asks
  · exact fun w r there step _ => step.next_question

end Manager

namespace World

theorem Reachable.kicks {w : World} (reachable : w.Reachable) {p : Participant}
    (member : p ∈ w.participants) : p.manager.Kicks := by
  have both : p.manager.Staged ∧ p.manager.Kicks := by
    refine reachable.manager (P := fun m => m.Staged ∧ m.Kicks) ?_ ?_ member
    · intro owner settings
      exact ⟨Manager.staged_fresh owner settings, Manager.kicks_fresh owner settings⟩
    · intro m s store m' b notes h move
      exact ⟨h.1.move move, h.2.move h.1 move⟩
  exact both.2

end World

end Leasehold
