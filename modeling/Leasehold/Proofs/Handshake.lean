import Leasehold.Proofs.Coalescing

/-! # The scheduler and its worker

The scheduler puts a request with a ticket into the queue, waits for the worker to acknowledge the ticket,
and sleeps before it makes the next request. `Scheduler.Chained` is what it keeps to: all of its requests but
the one that it waits for have been acknowledged, and a pause has followed each acknowledgement before the
next request. For the pauses it matters when things have happened, which a `Diary` tells.
-/

namespace Leasehold

theorem Duration.ceilMillis_bounds (d : Duration) : d.nanos ≤ d.ceilMillis * nanosPerMilli
    ∧ d.ceilMillis * nanosPerMilli < d.nanos + nanosPerMilli := by
  simp only [ceilMillis, nanosPerMilli]
  omega

/-! ## When things happen -/

/-- What has happened and when, the first first. -/
abbrev Diary := List (Nat × Note)

def Diary.notes (past : Diary) : List Note := past.map Prod.snd

theorem Diary.mem_notes {past : Diary} {time : Nat} {n : Note} (member : (time, n) ∈ past) :
    n ∈ past.notes := List.mem_map_of_mem (f := Prod.snd) member

theorem Diary.notes_append (past later : Diary) :
    Diary.notes (past ++ later) = past.notes ++ later.notes := List.map_append

theorem Diary.notes_at (now : Nat) (notes : List Note) :
    Diary.notes (notes.map (Prod.mk now)) = notes := by
  simp [Diary.notes, Function.comp_def]

namespace World

variable {w w' : World} {i : Nat} {a : Action}

/-- What happened to a participant and when, the first first. -/
def diary (w : World) (i : Nat) : Diary :=
  w.journal.reverse.filterMap fun e => if e.participant = some i then some (e.time, e.note) else none

theorem notes_diary (w : World) (i : Nat) : (w.diary i).notes = w.notesOf i := by
  rw [Diary.notes, diary, List.map_filterMap, notesOf]
  congr 1
  funext e
  split <;> rfl

theorem diary_of_journal (same : w'.journal = w.journal) (i : Nat) : w'.diary i = w.diary i := by
  rw [diary, same, diary]

theorem diary_of_lines {j : Nat} {notes : List Note}
    (journal : w'.journal = w.lines j notes ++ w.journal) (i : Nat) :
    w'.diary i = w.diary i ++ if j = i then notes.map (Prod.mk w.now) else [] := by
  rw [diary, journal, List.reverse_append, List.filterMap_append, diary, lines, List.reverse_reverse,
    List.filterMap_map]
  by_cases own : j = i
  · simp [own]
  · simp [own]

theorem diary_note_none (w : World) (notes : List Note) (i : Nat) :
    (w.note none notes).diary i = w.diary i := by
  simp [diary, note, List.filterMap_map]

theorem Change.diary_append (change : w.Change a w') (i : Nat) :
    ∃ notes : List Note, w'.diary i = w.diary i ++ notes.map (Prod.mk w.now) := by
  have same (past : w'.diary i = w.diary i) :
      ∃ notes : List Note, w'.diary i = w.diary i ++ notes.map (Prod.mk w.now) :=
    ⟨[], by rw [past, List.map_nil, List.append_nil]⟩
  cases change with
  | @move _ j _ _ _ notes _ moved =>
    rw [diary_of_lines moved.journal]
    by_cases own : j = i
    · exact ⟨notes, by rw [if_pos own]⟩
    · exact ⟨[], by rw [if_neg own, List.map_nil]⟩
  | rest still => exact same (diary_of_journal still.journal i)
  | tick | setLink | setClock => exact same rfl
  | use store request =>
    refine same ?_
    unfold World.use
    split
    · rfl
    · exact diary_note_none _ _ i
  | land landed =>
    refine same ?_
    rw [landed.eq]
    exact diary_note_none _ _ i

/-- A participant and its diary after a change: the manager has moved, or nothing happened to it. -/
theorem Change.diary_cases (change : w.Change a w') {p' : Participant}
    (present' : w'.participants[i]? = some p') :
    ∃ p, w.participants[i]? = some p
      ∧ (p'.manager = p.manager ∧ w'.diary i = w.diary i
        ∨ ∃ b notes, p.manager.Move (w.surroundings p) (w.storeOf p) p'.manager b notes
          ∧ w'.diary i = w.diary i ++ notes.map (Prod.mk w.now)) := by
  obtain ⟨notes, more⟩ := change.diary_append i
  have past : w'.notesOf i = w.notesOf i ++ notes := by
    rw [← notes_diary, ← notes_diary, more, Diary.notes_append, Diary.notes_at]
  obtain ⟨p, present, ⟨same, still⟩ | ⟨b, notes', move, past'⟩⟩ := change.past_cases present'
  · obtain rfl : notes = [] := List.append_right_eq_self.mp (past.symm.trans still)
    rw [List.map_nil, List.append_nil] at more
    exact ⟨p, present, .inl ⟨same, more⟩⟩
  · obtain rfl := List.append_cancel_left (past'.symm.trans past)
    exact ⟨p, present, .inr ⟨b, notes', move, more⟩⟩

/-- What a manager without a past has, and what every move and every millisecond keeps, is true of every
    manager that can be reached and its diary. -/
theorem Reachable.dated {P : Nat → Manager → Diary → Prop}
    (fresh : ∀ now owner settings, P now (.fresh owner settings) [])
    (move : ∀ m s store m' b past notes, P s.now m past → Manager.Move s store m m' b notes →
      P s.now m' (past ++ notes.map (Prod.mk s.now)))
    (tick : ∀ now m past, P now m past → P (now + 1) m past)
    (reachable : w.Reachable) {p : Participant} (present : w.participants[i]? = some p) :
    P w.now p.manager (w.diary i) := by
  obtain ⟨start, actions, begins, run⟩ := reachable
  have step (v : World) (a : Action) (v' : World)
      (before : ∀ p, v.participants[i]? = some p → P v.now p.manager (v.diary i)) (_ : True)
      (change : v.Change a v') (p' : Participant) (present' : v'.participants[i]? = some p') :
      P v'.now p'.manager (v'.diary i) := by
    rcases change.time_cases with ⟨now, _⟩ | ⟨_, rfl⟩
    · rw [now]
      obtain ⟨p, present, ⟨same, still⟩ | ⟨b, notes, moved, more⟩⟩ := change.diary_cases present'
      · rw [same, still]
        exact before p present
      · rw [more]
        exact move p.manager (v.surroundings p) _ p'.manager b _ notes (before p present) moved
    · exact tick v.now p'.manager _ (before p' present')
  refine run?_preserves step (fun _ _ => trivial) run (fun p₀ present₀ => ?_) p present
  obtain ⟨owner, settings, eq⟩ := begins.manager_fresh (List.mem_of_getElem? present₀)
  have none : start.diary i = [] := by
    rw [diary, begins.journal_nil]
    rfl
  rw [eq, none]
  exact fresh start.now owner settings

end World

/-! ## Requests and acknowledgements -/

/-- The tickets of the requests that have been made, the first first. -/
def requestedIn (notes : List Note) : List Nat := (sentIn notes).filterMap Command.ticket?

theorem requestedIn_append (notes notes' : List Note) :
    requestedIn (notes ++ notes') = requestedIn notes ++ requestedIn notes' := by
  rw [requestedIn, sentIn_append, List.filterMap_append, requestedIn, requestedIn]

theorem mem_requestedIn {notes : List Note} {t : Nat} (member : .sent (.maintain (some t)) ∈ notes) :
    t ∈ requestedIn notes :=
  List.mem_filterMap.mpr ⟨_, List.mem_filterMap.mpr ⟨_, member, rfl⟩, rfl⟩

theorem mem_acknowledgedIn {notes : List Note} {t : Nat} (member : .acknowledged t ∈ notes) :
    t ∈ acknowledgedIn notes := List.mem_filterMap.mpr ⟨_, member, rfl⟩

theorem acknowledged_of_mem {notes : List Note} {t : Nat} (member : t ∈ acknowledgedIn notes) :
    .acknowledged t ∈ notes := by
  obtain ⟨n, inside, brings⟩ := List.mem_filterMap.mp member
  cases n with
  | acknowledged t' =>
    cases brings
    exact inside
  | _ => cases brings

/-- No ticket is requested or acknowledged. -/
def Ticketless (notes : List Note) : Prop := requestedIn notes = [] ∧ acknowledgedIn notes = []

theorem Ticketless.append {notes notes' : List Note} (first : Ticketless notes)
    (last : Ticketless notes') : Ticketless (notes ++ notes') := by
  refine ⟨?_, ?_⟩
  · rw [requestedIn_append, first.1, last.1, List.append_nil]
  · rw [acknowledgedIn_append, first.2, last.2, List.append_nil]

theorem Aftermath.ticketless {notes : List Note} (aftermath : Aftermath notes) : Ticketless notes := by
  refine ⟨List.filterMap_eq_nil_iff.mpr fun c sent => ?_, List.filterMap_eq_nil_iff.mpr fun n member => ?_⟩
  · obtain ⟨n, member, brings⟩ := List.mem_filterMap.mp sent
    have other := (aftermath n member).1
    cases n with
    | sent c' =>
      cases brings
      cases c with
      | maintain ticket =>
        cases ticket with
        | none => rfl
        | some t => cases other
      | register | release => rfl
    | _ => cases brings
  · have other := (aftermath n member).1
    cases n with
    | acknowledged t => cases other
    | _ => rfl

theorem Idle.ticketless {notes : List Note} (idle : Idle notes) : Ticketless notes := by
  refine ⟨by rw [requestedIn, idle.sentIn]; rfl, List.filterMap_eq_nil_iff.mpr fun n member => ?_⟩
  have other := idle n member
  cases n with
  | acknowledged t => cases other
  | _ => rfl

/-- From each acknowledgement to a moment it is a pause at least. -/
def Elapsed (pause moment : Nat) (past : Diary) : Prop :=
  ∀ time t, (time, .acknowledged t) ∈ past → time + pause ≤ moment

/-- Before each request all earlier ones have been acknowledged, and it is made a pause later at least. -/
def Spaced (pause : Nat) (past : Diary) : Prop :=
  ∀ a time t b, past = a ++ (time, .sent (.maintain (some t))) :: b →
    requestedIn a.notes = acknowledgedIn a.notes ∧ Elapsed pause time a

section Diaries

variable {past : Diary} {notes : List Note} {pause moment now : Nat}

theorem Elapsed.mono (elapsed : Elapsed pause moment past) {moment' : Nat} (le : moment ≤ moment') :
    Elapsed pause moment' past :=
  fun time t member => (elapsed time t member).trans le

theorem elapsed_of_unacknowledged (none : acknowledgedIn past.notes = []) : Elapsed pause moment past := by
  intro time t member
  have told := mem_acknowledgedIn (Diary.mem_notes member)
  rw [none] at told
  cases told

theorem Elapsed.append (elapsed : Elapsed pause moment past) {later : Diary}
    (rest : Elapsed pause moment later) : Elapsed pause moment (past ++ later) :=
  fun time t member => (List.mem_append.mp member).elim (elapsed time t) (rest time t)

theorem elapsed_at (now : Nat) (notes : List Note) : Elapsed 0 now (notes.map (Prod.mk now)) := by
  intro time t member
  obtain ⟨n, _, eq⟩ := List.mem_map.mp member
  cases eq
  exact Nat.le_refl now

theorem spaced_of_unrequested (none : requestedIn past.notes = []) : Spaced pause past := by
  intro a time t b parts
  have inside : (time, Note.sent (.maintain (some t))) ∈ past :=
    parts ▸ List.mem_append_right a List.mem_cons_self
  have told := mem_requestedIn (Diary.mem_notes inside)
  rw [none] at told
  cases told

theorem Spaced.append (spaced : Spaced pause past) {later : Diary}
    (none : requestedIn later.notes = []) : Spaced pause (past ++ later) := by
  intro a time t b parts
  have missing : (time, .sent (.maintain (some t))) ∉ later := fun member => by
    have told := mem_requestedIn (Diary.mem_notes member)
    rw [none] at told
    cases told
  rcases List.append_eq_append_iff.mp parts with ⟨c, rfl, rest⟩ | ⟨c, parts', rest⟩
  · exact absurd (rest ▸ List.mem_append_right c List.mem_cons_self) missing
  · cases c with
    | nil =>
      rw [List.nil_append] at rest
      exact absurd (rest ▸ List.mem_cons_self) missing
    | cons e c =>
      obtain ⟨rfl, _⟩ := List.cons.inj rest
      exact spaced a time t c parts'

theorem Spaced.request (spaced : Spaced pause past) {t : Nat}
    (settled : requestedIn past.notes = acknowledgedIn past.notes) (elapsed : Elapsed pause now past) :
    Spaced pause (past ++ [(now, .sent (.maintain (some t)))]) := by
  intro a time t' b parts
  rcases Desk.cut_of_snoc parts with ⟨_, rfl, eq⟩ | ⟨b', _, parts'⟩
  · cases eq
    exact ⟨settled, elapsed⟩
  · exact spaced a time t' b' parts'

end Diaries

/-! ## What the scheduler keeps to -/

namespace Scheduler

variable {sc sc' next : Scheduler} {now pause : Nat} {past : Diary} {notes : List Note}
  {interval : Duration} {ticket : Option Nat}

/-- The ticket that the scheduler waits for, if it waits for one. -/
def awaited (sc : Scheduler) : List Nat :=
  match sc.pacing with
  | .awaiting t => [t]
  | _ => []

/-- It requests a cycle, or wakes, no earlier than a pause after the last acknowledgement, and does not
    sleep for longer than that. -/
def Rests (now pause : Nat) (past : Diary) (sc : Scheduler) : Prop :=
  match sc.pacing with
  | .requesting => Elapsed pause now past
  | .sleeping wake => Elapsed pause wake past ∧ wake ≤ now + pause
  | .awaiting _ | .acknowledged => True

/-- A scheduler goes with what has happened. -/
structure Chained (now pause : Nat) (past : Diary) (sc : Scheduler) : Prop where
  current : Elapsed 0 now past
  /-- All requests but the one that it waits for have been acknowledged. -/
  settled : requestedIn past.notes = acknowledgedIn past.notes ++ sc.awaited
  spaced : Spaced pause past
  rests : sc.Rests now pause past

theorem chained_of_ticketless (ticketless : Ticketless past.notes) (requesting : sc.pacing = .requesting) :
    sc.Chained now pause past where
  current := elapsed_of_unacknowledged ticketless.2
  settled := by rw [ticketless.1, ticketless.2, awaited, requesting]; rfl
  spaced := spaced_of_unrequested ticketless.1
  rests := by
    simp only [Rests, requesting]
    exact elapsed_of_unacknowledged ticketless.2

theorem Chained.later (chained : sc.Chained now pause past) {now' : Nat} (le : now ≤ now') :
    sc.Chained now' pause past := by
  refine ⟨chained.current.mono le, chained.settled, chained.spaced, ?_⟩
  have rests := chained.rests
  unfold Rests at rests ⊢
  split at rests
  · exact rests.mono le
  · exact ⟨rests.1, rests.2.trans (Nat.add_le_add_right le pause)⟩
  · trivial
  · trivial

theorem Chained.aside (chained : sc.Chained now pause past) (ticketless : Ticketless notes)
    (pacing : sc'.pacing = sc.pacing) :
    sc'.Chained now pause (past ++ notes.map (Prod.mk now)) := by
  have more {moment : Nat} : Elapsed pause moment (notes.map (Prod.mk now)) :=
    elapsed_of_unacknowledged (by rw [Diary.notes_at, ticketless.2])
  refine ⟨chained.current.append (elapsed_at now notes), ?_, chained.spaced.append ?_, ?_⟩
  · rw [Diary.notes_append, Diary.notes_at, requestedIn_append, acknowledgedIn_append, ticketless.1,
      ticketless.2, List.append_nil, List.append_nil, chained.settled, awaited, awaited, pacing]
  · rw [Diary.notes_at, ticketless.1]
  · have rests := chained.rests
    unfold Rests at rests ⊢
    rw [pacing]
    split at rests
    · exact rests.append more
    · exact ⟨rests.1.append more, rests.2⟩
    · trivial
    · trivial

/-- Nobody but the worker acknowledges tickets, and only the one that the scheduler waits for: then the
    scheduler hears of it. -/
theorem Chained.hear (chained : sc.Chained now pause past) (unrequested : requestedIn notes = [])
    {left : List Nat} (few : acknowledgedIn notes ++ left = sc.awaited) :
    (notes.foldl Scheduler.hear sc).Chained now pause (past ++ notes.map (Prod.mk now)) := by
  rcases sc.hear_cases notes with ⟨unheard, other⟩ | ⟨⟨t, waits, told⟩, heard⟩
  · have none : acknowledgedIn notes = [] := by
      refine List.eq_nil_iff_forall_not_mem.mpr fun t member => ?_
      have expected : t ∈ sc.awaited := few ▸ List.mem_append_left left member
      unfold awaited at expected
      split at expected
      · rename_i t' waits
        obtain rfl := List.mem_singleton.mp expected
        exact other t waits (acknowledged_of_mem member)
      · cases expected
    rw [unheard]
    exact chained.aside ⟨unrequested, none⟩ rfl
  · have expected : sc.awaited = [t] := by simp [awaited, waits]
    have all : acknowledgedIn notes = [t] := by
      rw [expected] at few
      rcases List.append_eq_singleton_iff.mp few with ⟨none, _⟩ | ⟨all, _⟩
      · have member := mem_acknowledgedIn told
        rw [none] at member
        cases member
      · exact all
    refine ⟨chained.current.append (elapsed_at now notes), ?_, chained.spaced.append ?_, ?_⟩
    · rw [Diary.notes_append, Diary.notes_at, requestedIn_append, acknowledgedIn_append, unrequested, all,
        List.append_nil, chained.settled, expected, awaited, heard, List.append_nil]
    · rw [Diary.notes_at, unrequested]
    · simp only [Rests, heard]

/-- A scheduler stays chained in every step of its own. -/
theorem Chained.step (chained : sc.Chained now interval.ceilMillis past)
    (step : sc.step now interval = some (next, ticket)) :
    next.Chained now interval.ceilMillis (past ++ (ticket.map fun t =>
      (now, Note.sent (.maintain (some t)))).toList) := by
  have settled := chained.settled
  have rests := chained.rests
  cases pacing : sc.pacing with
  | requesting =>
    simp only [Scheduler.step, pacing, Option.some.injEq, Prod.mk.injEq] at step
    obtain ⟨rfl, rfl⟩ := step
    simp only [Rests, pacing] at rests
    simp only [awaited, pacing, List.append_nil] at settled
    refine ⟨chained.current.append ?_, ?_, chained.spaced.request settled rests, trivial⟩
    · exact elapsed_of_unacknowledged rfl
    · rw [Diary.notes_append, requestedIn_append, acknowledgedIn_append, settled, List.append_assoc]
      rfl
  | awaiting t => simp [Scheduler.step, pacing] at step
  | acknowledged =>
    simp only [Scheduler.step, pacing, Option.some.injEq, Prod.mk.injEq] at step
    obtain ⟨rfl, rfl⟩ := step
    simp only [awaited, pacing] at settled
    rw [Option.map_none, Option.toList_none, List.append_nil]
    refine ⟨chained.current, settled, chained.spaced, fun time t member => ?_, Nat.le_refl _⟩
    exact Nat.add_le_add_right (chained.current time t member) _
  | sleeping wake =>
    simp only [Scheduler.step, pacing] at step
    split at step
    · simp only [Option.some.injEq, Prod.mk.injEq] at step
      obtain ⟨rfl, rfl⟩ := step
      simp only [Rests, pacing] at rests
      simp only [awaited, pacing] at settled
      rw [Option.map_none, Option.toList_none, List.append_nil]
      exact ⟨chained.current, settled, chained.spaced, rests.1.mono (by assumption)⟩
    · cases step

end Scheduler

/-! ## What the worker does with tickets -/

/-- The call of a cycle fails, or the time for the cycle is over before the call is answered. -/
def Cycle.GoesWrong (c : Cycle) (s : Surroundings) (store : Backend) : Prop :=
  c.call.isDue s.now = true ∧ (∃ e, (c.call.finish .worker s.trueTime store).1 = .error e)
    ∨ c.call.isDue s.now = false ∧ c.deadline ≤ s.now

/-- A step in which a cycle goes on, or ends and acknowledges all of its tickets, whether it has succeeded or
    has gone wrong. -/
def Cycle.EndsOpenly (c : Cycle) (s : Surroundings) (store : Backend) (r : WorkerStep) : Prop :=
  ((∃ stage call, r.worker.activity = .cycling { c with stage, call }) ∧ Beside r.notes
      ∧ ¬ c.GoesWrong s store)
    ∨ r.worker.activity = .waiting ∧ ∃ others succeeded, Beside others
      ∧ r.notes = others ++ .cycleEnded succeeded :: Worker.acknowledge c.tickets
      ∧ (succeeded = false ↔ c.GoesWrong s store)

namespace Worker

variable {w : Worker} {s : Surroundings} {queue : List Command} {store : Backend} {r : WorkerStep}
  {past : List Note} {ticket : Nat}

/-- However a cycle ends, its tickets are acknowledged. -/
theorem Move.endsOpenly (move : w.Move s queue store r) {c : Cycle} (cycling : w.activity = .cycling c) :
    c.EndsOpenly s store r := by
  cases move with
  | take listening => simp [batch?, cycling] at listening
  | beginCycle draining => cases cycling.symm.trans draining
  | beginRelease parting => cases cycling.symm.trans parting
  | endRelease releasing due => cases cycling.symm.trans releasing
  | abandonRelease releasing pending late => cases cycling.symm.trans releasing
  | @resume queue _ c' reply cycling' due answered =>
    cases cycling.symm.trans cycling'
    have right : ¬ c.GoesWrong s store := by
      rintro (⟨_, e, failed⟩ | ⟨pending, _⟩)
      · cases answered.symm.trans failed
      · cases due.symm.trans pending
    rcases w.resume_tells s c reply with ⟨goesOn, beside⟩ | ⟨waiting, others, beside, ends⟩
    · exact .inl ⟨goesOn, beside_append (beside_finish _ _ _ _) beside, right⟩
    · refine .inr ⟨waiting, (c.call.finish .worker s.trueTime store).2.2 ++ others, true,
        beside_append (beside_finish _ _ _ _) beside, ?_, by simp [right]⟩
      rw [ends, List.append_assoc]
  | @failCycle queue _ c' e cycling' due failed =>
    cases cycling.symm.trans cycling'
    obtain ⟨others, beside, ends⟩ := w.failCycle_tells s store.label c e
    refine .inr ⟨rfl, (c.call.finish .worker s.trueTime store).2.2 ++ others, false,
      beside_append (beside_finish _ _ _ _) beside, ?_, ?_⟩
    · rw [ends, List.append_assoc]
    · exact iff_of_true rfl (.inl ⟨due, e, failed⟩)
  | @overrun queue _ c' cycling' pending late =>
    cases cycling.symm.trans cycling'
    obtain ⟨others, beside, ends⟩ := w.failCycle_tells s store.label c (overdue c)
    refine .inr ⟨rfl, .cancelled .worker c.call.request :: others, false,
      List.forall_mem_cons.mpr ⟨rfl, beside⟩, ?_, ?_⟩
    · rw [ends, List.cons_append]
    · exact iff_of_true rfl (.inr ⟨pending, late⟩)

theorem Serves.requested (serves : w.Serves queue past) : requestedIn past
    = acknowledgedIn past ++ (w.tickets ++ queue.filterMap Command.ticket?) := by
  have coalesces := serves.coalesces
  rw [requestedIn, ← coalesces.delivered, List.filterMap_append, ← ticketsIn, coalesces.answered,
    List.append_assoc]

/-- The worker comes to acknowledge a ticket, whatever its store does and though some more commands come in
    meanwhile: it goes on when its deadline has come, if not before, and a step that does not acknowledge the
    ticket leaves fewer to be taken. -/
inductive Answers (ticket : Nat) : Nat → Worker → List Command → Prop where
  | works {more : Nat} {w : Worker} {queue : List Command}
      (able : ∀ s store, (∀ deadline, w.deadline? = some deadline → deadline ≤ s.now) →
        w.step s queue store ≠ none)
      (each : ∀ s store r, w.step s queue store = some r → .acknowledged ticket ∉ r.notes →
        Answers ticket more r.worker r.queue)
      (meanwhile : ∀ fewer c, fewer < more → Answers ticket fewer w (queue ++ [c])) :
      Answers ticket more w queue

theorem answers {w : Worker} {queue : List Command} (honest : w.Honest)
    (pending : ticket ∈ queue.filterMap Command.ticket? ++ w.tickets) (more : Nat) :
    w.Answers ticket more queue := by
  refine .works (fun s store late still => ?_) (fun s store r step silent => ?_) fun fewer c less => ?_
  · rcases rest_cases still with ⟨waiting, rfl⟩ | ⟨_, deadline, _, due, _, ahead⟩
    · simp [Worker.tickets, carried?, waiting] at pending
    · exact absurd (late deadline due) (Nat.not_le_of_lt ahead)
  · have move := move_of_step step
    have less := move.left_lt
    obtain ⟨honest', kept⟩ := move.tickets honest
    exact answers honest' ((kept ticket pending).resolve_right silent) more
  · have pending' : ticket ∈ (queue ++ [c]).filterMap Command.ticket? ++ w.tickets := by
      rw [List.filterMap_append]
      rcases List.mem_append.mp pending with queued | kept
      · exact List.mem_append_left _ (List.mem_append_left _ queued)
      · exact List.mem_append_right _ kept
    exact answers honest pending' fewer
termination_by (more, w.left queue)
decreasing_by
  · exact Prod.Lex.right _ less
  · exact Prod.Lex.left _ _ less

end Worker

/-! ## The two of them -/

namespace Manager

variable {m m' : Manager} {s : Surroundings} {store : Backend} {notes : List Note} {past : Diary}
  {now : Nat}

/-- Nothing is requested before a manager runs, and as long as there is a worker, the scheduler keeps to what
    it has to. -/
structure Chained (now : Nat) (past : Diary) (m : Manager) : Prop where
  early : m.Early → Ticketless past.notes
  scheduler : ∀ k sc, m.worker = some k → m.scheduler = some sc →
    sc.Chained now m.settings.interval.ceilMillis past

theorem chained_fresh (now : Nat) (owner : String) (settings : Settings) :
    (fresh owner settings).Chained now [] where
  early _ := ⟨rfl, rfl⟩
  scheduler k sc present := by cases present

theorem Chained.shift (chained : m.Chained s.now past) (staged : m.Staged) (serves : m.Serves past.notes)
    (shift : m.Shift s store m' notes) (settings : m'.settings = m.settings) :
    m'.Chained s.now (past ++ notes.map (Prod.mk s.now)) := by
  have serves' := serves.shift staged shift
  have before (early' : m'.Early) : m.Early := by_contra fun begun => shift.settled begun early'
  have still (ticketless : Ticketless notes) (keeps : ∀ k' sc', m'.worker = some k' →
      m'.scheduler = some sc' →
        ∃ k sc, m.worker = some k ∧ m.scheduler = some sc ∧ sc'.pacing = sc.pacing) :
      m'.Chained s.now (past ++ notes.map (Prod.mk s.now)) := by
    refine ⟨fun early' => ?_, fun k' sc' there there' => ?_⟩
    · rw [Diary.notes_append, Diary.notes_at]
      exact (chained.early (before early')).append ticketless
    · obtain ⟨k, sc, present, present', pacing⟩ := keeps k' sc' there there'
      rw [settings]
      exact (chained.scheduler k sc present present').aside ticketless pacing
  cases shift with
  | create name =>
    obtain ⟨⟨registry, handles, eq⟩, aftermath⟩ := m.createHandle_sent name
    refine still aftermath.ticketless fun k' sc' there there' => ?_
    rw [eq] at there there'
    exact ⟨k', sc', there, there', rfl⟩
  | release id =>
    obtain ⟨⟨registry, handles, eq⟩, aftermath⟩ := m.releaseHandle_sent id
    refine still aftermath.ticketless fun k' sc' there there' => ?_
    rw [eq] at there there'
    exact ⟨k', sc', there, there', rfl⟩
  | @work k r present move =>
    refine ⟨fun early' => ?_, fun k' sc' there there' => ?_⟩
    · cases (staged.worker_none (before early')).symm.trans present
    · have unrequested : requestedIn r.notes = [] := by
        rw [requestedIn, move.takes.1]
        rfl
      rw [publishAll_eq] at there'
      obtain ⟨sc, present', rfl⟩ := Option.map_eq_some_iff.mp there'
      have chained' := chained.scheduler k sc present present'
      have few := (serves'.worker k' there).requested
      rw [requestedIn_append, unrequested, List.append_nil, chained'.settled, acknowledgedIn_append,
        List.append_assoc] at few
      rw [settings]
      exact chained'.hear unrequested (List.append_cancel_left few).symm
  | request opened running =>
    obtain ⟨sc, present, step⟩ := running
    refine ⟨fun early' => ?_, fun k' sc' there there' => ?_⟩
    · cases (staged.scheduler_none (before early')).symm.trans present
    · cases there'
      exact (chained.scheduler k' sc there present).step step
  | pace running =>
    obtain ⟨sc, present, step⟩ := running
    refine ⟨fun early' => ?_, fun k' sc' there there' => ?_⟩
    · cases (staged.scheduler_none (before early')).symm.trans present
    · cases there'
      exact (chained.scheduler k' sc there present).step step
  | stage staging =>
    cases staging with
    | launch early opened keeps idle won begun =>
      refine ⟨fun early' => absurd early' begun, fun k' sc' there there' => ?_⟩
      obtain ⟨sc, new, pacing⟩ := keeps.scheduler sc' there'
      cases new
      refine Scheduler.chained_of_ticketless ?_ pacing
      rw [Diary.notes_append, Diary.notes_at]
      exact (chained.early early).append idle.ticketless
    | keep keeps idle lost stage =>
      refine still idle.ticketless fun k' sc' there there' => ?_
      obtain ⟨sc, present', pacing⟩ := keeps.scheduler sc' there'
      obtain ⟨k, aborted, present, rfl⟩ := keeps.worker_cases there
      exact ⟨k, sc, present, present', pacing⟩
  | reap stopped idle lost closed =>
    refine still idle.ticketless fun k' sc' there _ => ?_
    obtain ⟨_, _, gone, _⟩ := (keeps_dropQueue { m with worker := none }).worker_cases there
    cases gone

end Manager

namespace World

variable {w : World} {i : Nat} {p : Participant}

theorem Reachable.chained (reachable : w.Reachable) (present : w.participants[i]? = some p) :
    p.manager.Chained w.now (w.diary i) := by
  refine (reachable.dated (P := fun now m past => m.Staged ∧ m.Serves past.notes ∧ m.Chained now past)
    (fun now owner settings => ?_) ?_ ?_ present).2.2
  · exact ⟨Manager.staged_fresh owner settings, Manager.serves_fresh owner settings,
      Manager.chained_fresh now owner settings⟩
  · intro m s store m' b past notes ⟨staged, serves, chained⟩ move
    have shift := move.shift staged
    refine ⟨staged.move move, ?_, chained.shift staged serves shift move.frame.2⟩
    rw [Diary.notes_append, Diary.notes_at]
    exact serves.shift staged shift
  · intro now m past ⟨staged, serves, chained⟩
    exact ⟨staged, serves, chained.early, fun k sc there there' =>
      (chained.scheduler k sc there there').later (Nat.le_succ now)⟩

/-- How worker and scheduler of a participant depend on each other. -/
structure Handshake (w : World) (i : Nat) (m : Manager) (k : Worker) (sc : Scheduler) : Prop where
  /-- At most one request is outstanding: in the queue, or in what the worker has taken. -/
  outstanding : k.tickets ++ m.queue.filterMap Command.ticket? = sc.awaited
  /-- All others have been acknowledged once each and in order. -/
  answered : requestedIn (w.notesOf i) = acknowledgedIn (w.notesOf i) ++ sc.awaited
  /-- Each request was made when all earlier ones had been acknowledged and the pause had passed. -/
  spaced : Spaced m.settings.interval.ceilMillis (w.diary i)
  /-- A request was acknowledged after a whole cycle that began after the worker had taken it. -/
  served : ∀ a t b, w.notesOf i = a ++ .acknowledged t :: b → Desk.Ripe t a
  /-- In all surroundings and with any store, a failed or overdue cycle is acknowledged like any other. -/
  ends : ∀ c s store r, k.activity = .cycling c → k.step s m.queue store = some r →
    c.EndsOpenly s store r
  /-- The scheduler does not sleep longer than one pause, and waits only for what the worker will
      acknowledge. -/
  waits : match sc.pacing with
    | .requesting | .acknowledged => sc.step w.now m.settings.interval ≠ none
    | .sleeping wake => wake ≤ w.now + m.settings.interval.ceilMillis
    | .awaiting t => ∀ more, k.Answers t more m.queue
  /-- Whenever time is about to pass, the scheduler is asleep, or the worker waits for its store and will not
      do so beyond its deadline. -/
  quiet : w.isQuiet = true → (∃ wake, sc.pacing = .sleeping wake ∧ w.now < wake)
    ∨ ∃ t call deadline, sc.pacing = .awaiting t ∧ k.call? = some call ∧ k.deadline? = some deadline
      ∧ w.now < deadline

theorem Reachable.handshake (reachable : w.Reachable) (present : w.participants[i]? = some p) {k : Worker}
    {sc : Scheduler} (worker : p.manager.worker = some k) (scheduler : p.manager.scheduler = some sc) :
    w.Handshake i p.manager k sc := by
  have serves := (reachable.serves present).worker k worker
  obtain ⟨honest, _, reads⟩ := serves.reads
  have chained := (reachable.chained present).scheduler k sc worker scheduler
  have settled := chained.settled
  rw [notes_diary] at settled
  have outstanding : k.tickets ++ p.manager.queue.filterMap Command.ticket? = sc.awaited :=
    List.append_cancel_left (serves.requested.symm.trans settled)
  constructor
  case outstanding => exact outstanding
  case answered => exact settled
  case spaced => exact chained.spaced
  case served => exact reads.kept.served
  case ends => exact fun c s store r cycling step => (Worker.move_of_step step).endsOpenly cycling
  case waits =>
    have rests := chained.rests
    cases pacing : sc.pacing with
    | requesting | acknowledged => simp [Scheduler.step, pacing]
    | sleeping wake =>
      simp only [Scheduler.Rests, pacing] at rests
      exact rests.2
    | awaiting t =>
      refine fun more => Worker.answers honest (List.perm_append_comm.mem_iff.mp ?_) more
      rw [outstanding, Scheduler.awaited, pacing]
      exact List.mem_singleton_self t
  case quiet =>
    intro quiet
    have rests := resting_of_quiet quiet present (reachable.placed_of_worker present worker)
    rcases Scheduler.rest_cases (rests.scheduler sc scheduler).2 with ⟨t, awaits⟩ | asleep
    · rcases Worker.rest_cases (rests.worker k worker).2 with ⟨waiting, empty⟩ |
        ⟨call, deadline, called, due, _, ahead⟩
      · simp [Worker.tickets, Worker.carried?, waiting, empty, Scheduler.awaited, awaits] at outstanding
      · exact .inr ⟨t, call, deadline, awaits, called, due, ahead⟩
    · exact .inl asleep

/-- A manager runs as long as it has a worker that has not been told to end, and as long as it runs it has a
    scheduler that has not been told to end either. Whatever else is sent to the worker, and whatever happens
    to its store, the two depend on each other as `World.Handshake` says; the pause between requests is the
    interval of maintenance, rounded up to whole milliseconds. -/
theorem scheduler_and_worker_stay_chained (reachable : w.Reachable)
    (present : w.participants[i]? = some p) :
    (∀ k, p.manager.worker = some k → k.aborted = false → p.manager.lifecycle = .running)
      ∧ (p.manager.lifecycle = .running → ∃ k sc, p.manager.worker = some k ∧ k.aborted = false
        ∧ p.manager.scheduler = some sc ∧ sc.aborted = false ∧ w.Handshake i p.manager k sc)
      ∧ p.manager.settings.interval.nanos
        ≤ p.manager.settings.interval.ceilMillis * Duration.nanosPerMilli
      ∧ p.manager.settings.interval.ceilMillis * Duration.nanosPerMilli
        < p.manager.settings.interval.nanos + Duration.nanosPerMilli := by
  have staged := reachable.staged (List.mem_of_getElem? present)
  refine ⟨fun k worker alive => ?_, fun running => ?_, Duration.ceilMillis_bounds _⟩
  · rcases staged.worker k worker with ⟨running, _⟩ | ⟨_, aborted⟩
    · exact running
    · cases alive.symm.trans aborted
  · obtain ⟨there, there'⟩ := staged.running running
    obtain ⟨k, worker⟩ := Option.isSome_iff_exists.mp there
    obtain ⟨sc, scheduler⟩ := Option.isSome_iff_exists.mp there'
    refine ⟨k, sc, worker, ?_, scheduler, ?_, reachable.handshake present worker scheduler⟩
    · rcases staged.worker k worker with ⟨_, alive⟩ | ⟨stopped, _⟩
      · exact alive
      · cases running.symm.trans stopped
    · rcases staged.scheduler sc scheduler with ⟨_, alive⟩ | ⟨stopped, _⟩
      · exact alive
      · cases running.symm.trans stopped

/-- The first cycle fails, and the second is requested when the pause has passed. -/
def balky : List Action :=
  .start 0 :: turn 0 (.attempt 0) 4 ++ [.setLink 0 { failing := [.deleteExpired] }, .create 0 "x"]
    ++ turn 0 .scheduler 2 ++ turn 0 .worker 6 ++ turn 0 .scheduler 2 ++ List.replicate 4 .tick
    ++ turn 0 .scheduler 3

/-- The failed cycle has been acknowledged, and the scheduler waits for the next. -/
theorem scheduler_and_worker_stay_chained_balky :
    ∃ (w : World) (p : Participant) (k : Worker) (sc : Scheduler), lone.run? balky = some w
      ∧ w.participants[0]? = some p ∧ p.manager.lifecycle = .running ∧ p.manager.worker = some k
      ∧ p.manager.scheduler = some sc ∧ sc.pacing = .awaiting 1 ∧ .cycleEnded false ∈ w.notesOf 0
      ∧ requestedIn (w.notesOf 0) = [0, 1] ∧ acknowledgedIn (w.notesOf 0) = [0]
      ∧ w.Handshake 0 p.manager k sc := by
  have begins : lone.Begins := .join (.initial 0 [.freshMemory]) "a" (.ofMillis 8) 0 {}
  have run : lone.run? balky = some _ := rfl
  obtain ⟨k, sc, worker, _, scheduler, _, handshake⟩ :=
    (scheduler_and_worker_stay_chained ⟨lone, balky, begins, run⟩ (i := 0) rfl).2.1 rfl
  have pacing : sc.pacing = .awaiting 1 := by
    cases scheduler
    rfl
  refine ⟨_, _, k, sc, run, rfl, rfl, worker, scheduler, pacing, ?_, rfl, rfl, handshake⟩
  exact List.mem_of_getElem? (show _[20]? = some (Note.cycleEnded false) from rfl)

end World

end Leasehold
