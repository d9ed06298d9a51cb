import Leasehold.Proofs.Calls

/-! # Managers and their past

What a manager has done can be read off the journal. A statement about a manager together with its
past is proved like one about the manager alone: by what a new manager has, and by what every move
keeps, given what the move adds to the past (`World.Reachable.past`). For handles, commands and worker
there are only a few kinds of moves, `Manager.Shift`.
-/

namespace Leasehold

namespace Manager

variable {m m' : Manager} {s : Surroundings} {store b : Backend} {notes called : List Note}

/-- No start has succeeded and the manager has not been stopped. -/
def Early (m : Manager) : Prop := m.lifecycle = .idle ∨ m.lifecycle = .starting

/-- A manager that begins to run. -/
def launched (m : Manager) : Manager :=
  { m with lifecycle := .running, worker := some .fresh, scheduler := some .fresh }

/-! ## Moves that are no work -/

/-- A manager goes from stage to stage: a start succeeds, or handles, queue and worker are left
    alone. -/
inductive Staging (m : Manager) : Manager → List Note → Prop where
  | launch {m' : Manager} {notes : List Note} (early : m.Early) (opened : m.queueOpen = true)
      (keeps : m.launched.Keeps m') (idle : Idle notes) (won : successes notes = 1)
      (begun : ¬ m'.Early) : Staging m m' notes
  | keep {m' : Manager} {notes : List Note} (keeps : m.Keeps m') (idle : Idle notes)
      (lost : successes notes = 0)
      (stage : m'.lifecycle = m.lifecycle ∨ m'.lifecycle = .stopped ∨ m.Early ∧ m'.Early) :
      Staging m m' notes

theorem Staging.idle (staging : m.Staging m' notes) : Idle notes := by
  cases staging with
  | launch early opened keeps idle won begun => exact idle
  | keep keeps idle lost stage => exact idle

theorem Staging.registry (staging : m.Staging m' notes) : m'.registry = m.registry := by
  cases staging with
  | launch early opened keeps idle won begun => exact keeps.registry
  | keep keeps idle lost stage => exact keeps.registry

theorem Staging.handles (staging : m.Staging m' notes) : m'.handles = m.handles := by
  cases staging with
  | launch early opened keeps idle won begun => exact keeps.handles
  | keep keeps idle lost stage => exact keeps.handles

theorem Staging.queue (staging : m.Staging m' notes) (opened' : m'.queueOpen = true) :
    m.queueOpen = true ∧ m'.queue = m.queue := by
  cases staging with
  | launch early opened keeps idle won begun => exact ⟨opened, (keeps.opened opened').2⟩
  | keep keeps idle lost stage => exact keeps.opened opened'

theorem Staging.tracked (staging : m.Staging m' notes) (staged : m.Staged) :
    m'.tracked = m.tracked := by
  cases staging with
  | launch early opened keeps idle won begun =>
    rw [keeps.tracked, Manager.tracked, Manager.tracked, staged.worker_none early]
    rfl
  | keep keeps idle lost stage => exact keeps.tracked

theorem Staging.after (staging : m.Staging m' notes) (idle : Idle called)
    (silent : successes called = 0) : m.Staging m' (called ++ notes) := by
  cases staging with
  | launch early opened keeps quiet won begun =>
    refine .launch early opened keeps (idle_append idle quiet) ?_ begun
    rw [successes_append, silent, won]
  | keep keeps quiet lost stage =>
    refine .keep keeps (idle_append idle quiet) ?_ stage
    rw [successes_append, silent, lost]

theorem Staging.after_call (staging : m.Staging m' notes) (c : Call) {caller : Caller}
    (other : caller ≠ .worker) (trueTime : Int) (store : Backend) :
    m.Staging m' ((c.finish caller trueTime store).2.2 ++ notes) :=
  staging.after (idle_finish c other trueTime store) (routine_finish c caller trueTime store).successes

theorem staging_of_keeps (keeps : m.Keeps m') (idle : Idle notes) (lost : successes notes = 0)
    (same : m'.lifecycle = m.lifecycle) : m.Staging m' notes :=
  .keep keeps idle lost (.inl same)

theorem lifecycle_dropQueue (m : Manager) : m.dropQueue.lifecycle = m.lifecycle := by
  obtain ⟨queue, eq⟩ := m.dropQueue_eq
  rw [eq]

theorem lifecycle_dropIfUnused (m : Manager) :
    m.dropIfUnused.lifecycle = m.lifecycle ∨ m.dropIfUnused.lifecycle = .stopped := by
  rcases m.dropIfUnused_cases with eq | eq <;> rw [eq]
  · exact .inl rfl
  · exact .inr (lifecycle_dropQueue m.ended)

theorem lifecycle_dropAttempt (m : Manager) (id : Nat) :
    (m.dropAttempt id).lifecycle = m.lifecycle ∨ (m.dropAttempt id).lifecycle = .stopped := by
  have rest := lifecycle_dropIfUnused
    ({ m with attempts := m.attempts.filter fun a => a.id ≠ id } : Manager).dropQueue
  rw [lifecycle_dropQueue] at rest
  exact rest

theorem lifecycle_stop (m : Manager) : m.stop.1.lifecycle = .stopped := by
  rcases m.stop_cases with eq | ⟨_, eq⟩ <;> rw [eq, lifecycle_dropQueue]
  rfl

theorem staging_stop (m : Manager) : m.Staging m.stop.1 m.stop.2 := by
  have told : Idle m.stop.2 ∧ successes m.stop.2 = 0 := by
    unfold stop
    dsimp only
    split
    · exact ⟨idle_log _ _ _, rfl⟩
    · exact ⟨by simp [Idle], rfl⟩
  exact .keep (keeps_stop m) told.1 told.2 (.inr (.inl m.lifecycle_stop))

theorem staging_abandon (m : Manager) : m.Staging m.abandon [] := by
  apply Staging.keep (keeps_abandon m) (by simp [Idle]) rfl
  exact (lifecycle_dropIfUnused { m with referenced := false }).imp_right Or.inl

theorem staging_beginStart (m : Manager) (id : Nat) : m.Staging (m.beginStart id) [] :=
  staging_of_keeps (keeps_beginStart m id) (by simp [Idle]) rfl rfl

theorem staging_listings (listings : List Listing) (idle : Idle notes) (lost : successes notes = 0) :
    m.Staging { m with listings } notes :=
  staging_of_keeps (keeps_listings listings) idle lost rfl

theorem staging_endListing (m : Manager) (id : Nat) (result : Except LeaseError (List Record)) :
    m.Staging (m.endListing id) [.listingEnded id result] := by
  apply Staging.keep (keeps_endListing m id) (by simp [Idle, Note.isWork]) rfl
  exact (lifecycle_dropIfUnused _).imp_right Or.inl

theorem staging_dropAttempt (m : Manager) (id : Nat) (idle : Idle notes) (lost : successes notes = 0) :
    m.Staging (m.dropAttempt id) notes :=
  .keep (keeps_dropAttempt m id) idle lost ((lifecycle_dropAttempt m id).imp_right Or.inl)

theorem staging_endAttempt (m : Manager) (id : Nat) (e : LeaseError) :
    m.Staging (m.endAttempt id (.error e)).1 (m.endAttempt id (.error e)).2 :=
  staging_dropAttempt m id (by simp [endAttempt, Idle, Note.isWork]) rfl

theorem staging_crashStart (m : Manager) (id : Nat) (overflow : Overflow) :
    m.Staging (m.crashStart id overflow).1 (m.crashStart id overflow).2 :=
  staging_dropAttempt m id (by simp [crashStart, Idle, Note.isWork]) rfl

theorem staging_failStart (opened : m.queueOpen = true) (id : Nat) (e : LeaseError) :
    m.Staging (m.failStart id e).1 (m.failStart id e).2 := by
  apply Staging.keep (keeps_failStart opened)
  · simp [Idle, failStart, endAttempt, Note.isWork]
  · rfl
  · unfold failStart
    split
    · rename_i starting
      rcases lifecycle_dropAttempt { m with lifecycle := .idle } id with same | stopped
      · exact .inr (.inr ⟨.inr starting, .inl same⟩)
      · exact .inr (.inl stopped)
    · exact (lifecycle_dropAttempt m id).imp_right Or.inl

theorem staging_launch (early : m.Early) (opened : m.queueOpen = true) (label : String) (id : Nat) :
    m.Staging (({ m with lifecycle := .starting } : Manager).finishStart label id).1
      (({ m with lifecycle := .starting } : Manager).finishStart label id).2 := by
  have result := lifecycle_dropAttempt m.launched id
  apply Staging.launch early opened
  · rw [finishStart_of_starting rfl]
    exact keeps_dropAttempt m.launched id
  · simp [Idle, finishStart, endAttempt, Note.isWork]
  · rfl
  · rw [finishStart_of_starting rfl]
    change ¬ (m.launched.endAttempt id (.ok ())).1.Early
    rintro (idle | starting)
    · rcases result with same | stopped
      · cases same.symm.trans idle
      · cases stopped.symm.trans idle
    · rcases result with same | stopped
      · cases same.symm.trans starting
      · cases stopped.symm.trans starting

theorem staging_finishStart (opened : m.queueOpen = true) (label : String) (id : Nat) :
    m.Staging (m.finishStart label id).1 (m.finishStart label id).2 := by
  by_cases starting : m.lifecycle = .starting
  · have same : ({ m with lifecycle := .starting } : Manager) = m := by rw [← starting]
    have launch := staging_launch (m := m) (.inr starting) opened label id
    rw [same] at launch
    exact launch
  · rw [finishStart_of_stopped starting]
    exact staging_endAttempt m id .stopped

theorem staging_setStage (opened : m.queueOpen = true) {lifecycle : Lifecycle} (id : Nat)
    (stage : AttemptStage) (same : lifecycle = m.lifecycle ∨ m.lifecycle = .idle ∧ lifecycle = .starting)
    (idle : Idle notes) (lost : successes notes = 0) :
    m.Staging (({ m with lifecycle } : Manager).setStage id stage) notes := by
  refine .keep (keeps_setStage opened ?_) idle lost ?_
  · intro stopped
    rcases same with same | ⟨idle, _⟩
    · exact same.trans stopped
    · cases idle.symm.trans stopped
  · rcases same with same | ⟨idle, starting⟩
    · exact .inl same
    · exact .inr (.inr ⟨.inl idle, .inr starting⟩)

/-- What a move is to handles, commands and worker. -/
inductive Shift (s : Surroundings) (store : Backend) (m : Manager) : Manager → List Note → Prop where
  | create (name : String) : Shift s store m (m.createHandle name).2.1 (m.createHandle name).2.2
  | release (id : Nat) : Shift s store m (m.releaseHandle id).1 (m.releaseHandle id).2
  | work {w r} (present : m.worker = some w) (move : w.Move s m.queue store r) :
      Shift s store m (({ m with worker := some r.worker, queue := r.queue }).publishAll r.notes)
        r.notes
  | request {next ticket} (opened : m.queueOpen = true)
      (running : ∃ sc, m.scheduler = some sc
        ∧ sc.step s.now m.settings.interval = some (next, some ticket)) :
      Shift s store m
        { m with scheduler := some next, queue := m.queue ++ [.maintain (some ticket)] }
        [.sent (.maintain (some ticket))]
  | pace {next} (running : ∃ sc, m.scheduler = some sc
        ∧ sc.step s.now m.settings.interval = some (next, none)) :
      Shift s store m { m with scheduler := some next } []
  | stage {m' : Manager} {notes : List Note} (staging : m.Staging m' notes) : Shift s store m m' notes
  /-- A worker that has been told to end is gone, and nobody listens any more. -/
  | reap {notes : List Note} (stopped : m.lifecycle = .stopped) (idle : Idle notes)
      (lost : successes notes = 0)
      (closed : ({ m with worker := none } : Manager).queueOpen = false) :
      Shift s store m ({ m with worker := none } : Manager).dropQueue notes

theorem idle_reap (m : Manager) (k : TaskKind) : Idle (m.reap k).2 ∧ successes (m.reap k).2 = 0 := by
  cases k with
  | worker =>
    constructor
    · simp [reap, Idle, Note.isWork]
    · simp [reap, successes, List.countP_eq_zero, Note.isSuccess]
  | _ => exact ⟨by simp [reap, Idle], rfl⟩

theorem Move.shift (move : m.Move s store m' b notes) (staged : m.Staged) :
    m.Shift s store m' notes := by
  cases move with
  | create name => exact .create name
  | release id => exact .release id
  | stop => exact .stage (staging_stop m)
  | abandon => exact .stage (staging_abandon m)
  | beginStart id => exact .stage (staging_beginStart m id)
  | beginListing id => exact .stage (staging_listings _ (by simp [Idle]) rfl)
  | worker present move => exact .work present move
  | request present step listened => exact .request listened ⟨_, present, step⟩
  | retire present step closed =>
    exact .stage (staging_of_keeps keeps_withoutScheduler (idle_log _ _ _) rfl rfl)
  | pace present step => exact .pace ⟨_, present, step⟩
  | refuse id e => exact .stage (staging_endAttempt m id e)
  | enter idle enabled =>
    have opened := queueOpen_iff.mpr (.inl idle)
    exact .stage (staging_setStage opened _ _ (.inr ⟨idle, rfl⟩) (by simp [Idle, Note.isWork]) rfl)
  | @enterAlone id fields idle disabled =>
    have launch := staging_launch (.inl idle) (queueOpen_iff.mpr (.inl idle)) store.label id
    exact .stage (launch.after (idle_log _ _ _) rfl)
  | @fail a call _ present called due e fields notes_eq =>
    have failed := staging_failStart (queueOpen_of_attempt present (keepsQueue_of_call? called)) a.id e
    apply Shift.stage
    apply Staging.after_call _ call (by simp)
    rcases notes_eq with rfl | rfl
    · exact failed
    · exact failed.after (idle_log _ _ _) rfl
  | @crash a call reply overflow present comparing due answered overflows =>
    exact .stage ((staging_crashStart m a.id overflow).after_call call (by simp) _ _)
  | @compare a call reply text present comparing due answered near =>
    have opened := queueOpen_of_attempt present (keepsQueue_of_stage (by simp [comparing]))
    have asked : m.Staging _ [.log .debug text [], .began (.attempt a.id) .ensureSchema] :=
      staging_setStage opened a.id (.preparing (Call.place s.link s.now .ensureSchema)) (.inl rfl)
        (by simp [Idle, Note.isWork]) rfl
    exact .stage (asked.after_call call (by simp) _ _)
  | @finish a call reply present preparing due answered =>
    have opened := queueOpen_of_attempt present (keepsQueue_of_stage (by simp [preparing]))
    exact .stage ((staging_finishStart opened store.label a.id).after_call call (by simp) _ _)
  | askListing id => exact .stage (staging_listings _ (by simp [Idle, Note.isWork]) rfl)
  | @endListing l call present called due =>
    exact .stage ((staging_endListing m l.id _).after_call call (by simp) _ _)
  | reapWorker present aborted =>
    have told := m.idle_reap .worker
    exact .reap (staged.stopped_of_worker present aborted) told.1 told.2
      (staged.queueOpen_of_reaped present aborted)
  | reapScheduler present aborted =>
    exact .stage (staging_of_keeps keeps_withoutScheduler (by simp [Idle]) rfl rfl)

end Manager

namespace World

variable {w w' : World} {i : Nat}

/-- What happened to a participant, the first first. -/
def notesOf (w : World) (i : Nat) : List Note :=
  w.journal.reverse.filterMap fun e => if e.participant = some i then some e.note else none

theorem notesOf_of_journal (same : w'.journal = w.journal) (i : Nat) :
    w'.notesOf i = w.notesOf i := by
  rw [notesOf, same, notesOf]

theorem notesOf_of_lines {j : Nat} {notes : List Note}
    (journal : w'.journal = w.lines j notes ++ w.journal) (i : Nat) :
    w'.notesOf i = w.notesOf i ++ if j = i then notes else [] := by
  rw [notesOf, journal, List.reverse_append, List.filterMap_append, notesOf, lines,
    List.reverse_reverse, List.filterMap_map]
  by_cases own : j = i
  · simp [own]
  · simp [own]

theorem notesOf_note_none (w : World) (notes : List Note) (i : Nat) :
    (w.note none notes).notesOf i = w.notesOf i := by
  simp [notesOf, note, List.filterMap_map]

theorem notesOf_use (w : World) (store : Nat) (request : Request) (i : Nat) :
    (w.use store request).notesOf i = w.notesOf i := by
  unfold use
  split
  · rfl
  · exact notesOf_note_none _ _ i

/-- Whatever happens to one participant is added to its own past, and nothing happens to the others. -/
theorem past_of_moved {j : Nat} {q : Participant} {m : Manager} {notes : List Note}
    (there : w.participants[j]? = some q)
    (participants : w'.participants = w.participants.set j { q with manager := m })
    (journal : w'.journal = w.lines j notes ++ w.journal) {p' : Participant}
    (present' : w'.participants[i]? = some p') :
    ∃ p, w.participants[i]? = some p
      ∧ (p'.manager = p.manager ∧ w'.notesOf i = w.notesOf i
        ∨ j = i ∧ p = q ∧ p'.manager = m ∧ w'.notesOf i = w.notesOf i ++ notes) := by
  have past := notesOf_of_lines journal i
  rw [participants, List.getElem?_set] at present'
  by_cases own : j = i
  · subst own
    have inside : j < w.participants.length := (List.getElem?_eq_some_iff.mp there).1
    simp only [if_true, inside, Option.some.injEq] at present'
    subst present'
    rw [if_pos rfl] at past
    exact ⟨q, there, .inr ⟨rfl, rfl, rfl, past⟩⟩
  · rw [if_neg own] at present'
    rw [if_neg own, List.append_nil] at past
    exact ⟨p', present', .inl ⟨rfl, past⟩⟩

/-- Nothing happens to any manager. -/
def Unmoved (w w' : World) : Prop :=
  ∀ i p', w'.participants[i]? = some p' → ∃ p, w.participants[i]? = some p
    ∧ p'.manager = p.manager ∧ w'.notesOf i = w.notesOf i

theorem unmoved_of_same (participants : w'.participants = w.participants)
    (journal : w'.journal = w.journal) : w.Unmoved w' := by
  intro i p' present'
  rw [participants] at present'
  exact ⟨p', present', rfl, notesOf_of_journal journal i⟩

theorem unmoved_setLink (w : World) (j : Nat) (link : Link) : w.Unmoved (w.setLink j link) := by
  intro i p' present'
  obtain ⟨p, _, present, rfl⟩ := setLink_participant present'
  exact ⟨p, present, rfl, rfl⟩

theorem unmoved_setClock (w : World) (j : Nat) (clock : ClockSetting) :
    w.Unmoved (w.setClock j clock) := by
  intro i p' present'
  obtain ⟨p, _, present, rfl, _⟩ := setClock_participant present'
  exact ⟨p, present, rfl, rfl⟩

theorem unmoved_use (w : World) (store : Nat) (request : Request) :
    w.Unmoved (w.use store request) := by
  intro i p' present'
  rw [w.participants_use store request] at present'
  exact ⟨p', present', rfl, w.notesOf_use store request i⟩

theorem Landed.notesOf_eq {place : Nat} {stray : Stray} {q : Participant} {b : Backend}
    (landed : w.Landed place stray q b w') (i : Nat) : w'.notesOf i = w.notesOf i := by
  rw [landed.eq]
  exact notesOf_note_none _ _ i

theorem Landed.unmoved {place : Nat} {stray : Stray} {q : Participant} {b : Backend}
    (landed : w.Landed place stray q b w') : w.Unmoved w' := by
  intro i p' present'
  rw [landed.participants] at present'
  exact ⟨p', present', rfl, landed.notesOf_eq i⟩

theorem Change.past_cases {a : Action} (change : w.Change a w') {p' : Participant}
    (present' : w'.participants[i]? = some p') :
    ∃ p, w.participants[i]? = some p
      ∧ (p'.manager = p.manager ∧ w'.notesOf i = w.notesOf i
        ∨ ∃ b notes, p.manager.Move (w.surroundings p) (w.storeOf p) p'.manager b notes
          ∧ w'.notesOf i = w.notesOf i ++ notes) := by
  have still (unmoved : w.Unmoved w') : ∃ p, w.participants[i]? = some p
      ∧ (p'.manager = p.manager ∧ w'.notesOf i = w.notesOf i
        ∨ ∃ b notes, p.manager.Move (w.surroundings p) (w.storeOf p) p'.manager b notes
          ∧ w'.notesOf i = w.notesOf i ++ notes) := by
    obtain ⟨p, present, same⟩ := unmoved i p' present'
    exact ⟨p, present, .inl same⟩
  cases change with
  | move moved =>
    obtain ⟨p, present, same | ⟨rfl, rfl, manager, past⟩⟩ :=
      past_of_moved moved.present moved.participants moved.journal present'
    · exact ⟨p, present, .inl same⟩
    · exact ⟨p, present, .inr ⟨_, _, manager ▸ moved.move, past⟩⟩
  | rest same => exact still (unmoved_of_same same.participants same.journal)
  | tick quiet => exact still (unmoved_of_same rfl rfl)
  | setLink j link => exact still (w.unmoved_setLink j link)
  | setClock j clock => exact still (w.unmoved_setClock j clock)
  | use store request => exact still (w.unmoved_use store request)
  | land landed => exact still landed.unmoved

theorem Change.length_participants {a : Action} (change : w.Change a w') :
    w'.participants.length = w.participants.length := by
  cases change with
  | move moved => simp [moved.participants]
  | rest same => rw [same.participants]
  | tick quiet => rfl
  | setLink j link => simp [World.setLink]
  | setClock j clock => simp [World.setClock]
  | use store request => rw [w.participants_use store request]
  | land landed => rw [landed.participants]

theorem length_of_run {actions : List Action} (run : w.run? actions = some w') :
    w'.participants.length = w.participants.length := by
  have step (v : World) (a : Action) (v' : World)
      (same : v.participants.length = w.participants.length) (_ : True) (change : v.Change a v') :
      v'.participants.length = w.participants.length :=
    change.length_participants.trans same
  exact run?_preserves step (fun _ _ => trivial) run rfl

theorem present_of_run {actions : List Action} (run : w.run? actions = some w') {p : Participant}
    (present : w.participants[i]? = some p) : ∃ p', w'.participants[i]? = some p' := by
  have inside := (List.getElem?_eq_some_iff.mp present).1
  rw [← length_of_run run] at inside
  exact ⟨_, List.getElem?_eq_getElem inside⟩

/-- What every move keeps of a manager and its past is kept by every run. -/
theorem run?_keeps_past {P : Manager → List Note → Prop}
    (move : ∀ m s store m' b past notes, P m past → Manager.Move s store m m' b notes →
      P m' (past ++ notes))
    {actions : List Action} (run : w.run? actions = some w')
    (start : ∀ p, w.participants[i]? = some p → P p.manager (w.notesOf i))
    {p' : Participant} (present' : w'.participants[i]? = some p') :
    P p'.manager (w'.notesOf i) := by
  have step : ∀ (w : World) (a : Action) (w' : World),
      (∀ p, w.participants[i]? = some p → P p.manager (w.notesOf i)) → True → w.Change a w' →
        ∀ p, w'.participants[i]? = some p → P p.manager (w'.notesOf i) := by
    intro w a w' before _ change p' present'
    obtain ⟨p, present, ⟨same, past⟩ | ⟨b, notes, moved, past⟩⟩ := change.past_cases present'
    · rw [same, past]
      exact before p present
    · rw [past]
      exact move p.manager _ _ p'.manager b _ notes (before p present) moved
  exact run?_preserves step (fun _ _ => trivial) run start p' present'

theorem Begins.journal_nil {start : World} (begins : start.Begins) : start.journal = [] := by
  induction begins with
  | initial epoch stores => rfl
  | join begins owner settings store clock ih =>
    unfold World.join
    split <;> exact ih

/-- What a manager without a past has and every move keeps is true of every manager that can be
    reached and its past. -/
theorem Reachable.past {P : Manager → List Note → Prop}
    (fresh : ∀ owner settings, P (.fresh owner settings) [])
    (move : ∀ m s store m' b past notes, P m past → Manager.Move s store m m' b notes →
      P m' (past ++ notes))
    (reachable : w.Reachable) {p : Participant} (present : w.participants[i]? = some p) :
    P p.manager (w.notesOf i) := by
  obtain ⟨start, actions, begins, run⟩ := reachable
  apply run?_keeps_past move run _ present
  intro p₀ present₀
  obtain ⟨owner, settings, eq⟩ := begins.manager_fresh (List.mem_of_getElem? present₀)
  have none : start.notesOf i = [] := by
    rw [notesOf, begins.journal_nil]
    rfl
  rw [eq, none]
  exact fresh owner settings

end World

end Leasehold
