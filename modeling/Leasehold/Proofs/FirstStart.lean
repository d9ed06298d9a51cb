import Leasehold.Proofs.Exclusion
import Leasehold.Proofs.Lifespan

/-! # The first start without coordination

With leases disabled an attempt to start asks nobody: it ends as soon as it moves, and the first one
succeeds, whatever the clock shows: `Manager.Granting`. A manager that has been started runs until its
application tells it to end: `Manager.Alive`.
-/

namespace Leasehold

/-! ## How attempts end -/

def Note.outcome? : Note → Option (Except LeaseError Unit)
  | .startEnded _ result => some result
  | _ => none

/-- How the attempts to start have ended, the first first. -/
def outcomes (notes : List Note) : List (Except LeaseError Unit) := notes.filterMap Note.outcome?

theorem outcomes_append (notes notes' : List Note) :
    outcomes (notes ++ notes') = outcomes notes ++ outcomes notes' := List.filterMap_append

theorem Routine.outcomes {notes : List Note} (routine : Routine notes) :
    Leasehold.outcomes notes = [] := by
  rw [Leasehold.outcomes, List.filterMap_eq_nil_iff]
  intro n member
  have usual := routine n member
  cases n with
  | startEnded id result => cases usual
  | _ => rfl

theorem Worker.Move.outcomes {w : Worker} {s : Surroundings} {queue : List Command} {store : Backend}
    {r : WorkerStep} (move : w.Move s queue store r) : Leasehold.outcomes r.notes = [] := by
  rcases move.routine with ⟨_, routine⟩ | ⟨c, rest, _, _, eq, routine⟩
  · exact routine.outcomes
  · rw [eq]
    exact routine.outcomes

namespace Manager

variable {m m' : Manager} {s : Surroundings} {store b : Backend} {notes past : List Note}

theorem outcomes_send (m : Manager) (c : Command) : outcomes (m.send c).2 = [] := by
  cases opened : m.queueOpen with
  | true =>
    rw [send_of_open opened]
    rfl
  | false =>
    rw [send_of_closed opened]
    rfl

theorem outcomes_createHandle (m : Manager) (name : String) :
    outcomes (m.createHandle name).2.2 = [] := by
  cases opened : m.queueOpen with
  | false =>
    rw [createHandle_of_closed opened]
    rfl
  | true =>
    cases taken : m.registry.active.lookup name with
    | none =>
      rw [createHandle_of_free opened taken]
      rfl
    | some id =>
      rw [createHandle_of_taken opened (by simp [taken])]
      rfl

theorem outcomes_releaseHandle (m : Manager) (id : Nat) : outcomes (m.releaseHandle id).2 = [] := by
  rcases m.releaseHandle_cases id with eq | ⟨h, _, _, _, eq⟩
  · rw [eq]
    rfl
  · rw [eq]
    unfold unregister
    split
    · exact outcomes_send _ _
    · rfl

theorem outcomes_stop (m : Manager) : outcomes m.stop.2 = [] := by
  unfold stop
  dsimp only
  split
  · rfl
  · rfl

theorem outcomes_reap (m : Manager) (k : TaskKind) : outcomes (m.reap k).2 = [] := by
  cases k with
  | worker => simp [reap, outcomes, Note.outcome?]
  | _ => rfl

theorem outcomes_stepWorker (step : m.stepWorker s store = some (m', b, notes)) :
    outcomes notes = [] := by
  obtain ⟨k, present, step⟩ := Option.bind_eq_some_iff.mp step
  obtain ⟨r, worked, eq⟩ := Option.map_eq_some_iff.mp step
  cases eq
  exact (Worker.move_of_step worked).outcomes

theorem outcomes_stepScheduler (step : m.stepScheduler s store = some (m', b, notes)) :
    outcomes notes = [] := by
  obtain ⟨sc, present, step⟩ := Option.bind_eq_some_iff.mp step
  obtain ⟨⟨next, ticket⟩, step, eq⟩ := Option.map_eq_some_iff.mp step
  cases ticket with
  | none =>
    cases eq
    rfl
  | some ticket =>
    by_cases opened : m.queueOpen = true
    · simp only [opened, if_true] at eq
      cases eq
      exact outcomes_send _ _
    · simp only [opened, if_false, Bool.false_eq_true] at eq
      cases eq
      rfl

theorem outcomes_stepListing {id : Nat} (step : m.stepListing s store id = some (m', b, notes)) :
    outcomes notes = [] := by
  unfold stepListing at step
  split at step
  · cases step
  · split at step
    · cases step
      rfl
    · rename_i call _
      have silent := (routine_finish call (.listing id) s.trueTime store).outcomes
      split at step
      · simp only [Option.some.injEq, Prod.mk.injEq] at step
        obtain ⟨_, _, rfl⟩ := step
        rw [outcomes_append, silent]
        rfl
      · cases step

/-! ## Attempts that ask nobody -/

/-- No attempt moves, though others may begin. -/
structure Bystander (m m' : Manager) (notes : List Note) : Prop where
  attempts : ∃ new, m'.attempts = m.attempts ++ new ∧ ∀ a ∈ new, a.stage = .fresh
  lifecycle : m'.lifecycle = m.lifecycle ∨ m'.lifecycle = .stopped
  silent : outcomes notes = []

theorem bystander_of_same (attempts : m'.attempts = m.attempts)
    (lifecycle : m'.lifecycle = m.lifecycle ∨ m'.lifecycle = .stopped) (silent : outcomes notes = []) :
    m.Bystander m' notes where
  attempts := ⟨[], by rw [attempts, List.append_nil], List.forall_mem_nil _⟩
  lifecycle := lifecycle
  silent := silent

/-- What is known of a manager with leases disabled and its past: an attempt to start waits for nothing,
    and the first one succeeds. -/
structure Granting (m : Manager) (past : List Note) : Prop where
  fresh : ∀ a ∈ m.attempts, a.stage = .fresh
  prompt : m.lifecycle ≠ .starting
  idle : m.lifecycle = .idle → outcomes past = []
  running : m.lifecycle = .running → (outcomes past).head? = some (.ok ())

/-- An attempt is under way or has ended. -/
def Tried (m : Manager) (past : List Note) : Prop := m.attempts ≠ [] ∨ outcomes past ≠ []

theorem granting_fresh (owner : String) (settings : Settings) : (fresh owner settings).Granting [] where
  fresh a member := by cases member
  prompt := nofun
  idle _ := rfl
  running := nofun

theorem Granting.beside (h : m.Granting past) (bystander : m.Bystander m' notes) :
    m'.Granting (past ++ notes) := by
  have same : outcomes (past ++ notes) = outcomes past := by
    rw [outcomes_append, bystander.silent, List.append_nil]
  obtain ⟨new, attempts, begun⟩ := bystander.attempts
  have fresh : ∀ a ∈ m'.attempts, a.stage = .fresh := by
    intro a member
    rw [attempts] at member
    exact (List.mem_append.mp member).elim (h.fresh a) (begun a)
  rcases bystander.lifecycle with still | stopped
  · exact ⟨fresh, still ▸ h.prompt, same ▸ still ▸ h.idle, same ▸ still ▸ h.running⟩
  · constructor <;> simp_all

theorem Tried.beside (tried : m.Tried past) (bystander : m.Bystander m' notes) :
    m'.Tried (past ++ notes) := by
  obtain ⟨new, attempts, _⟩ := bystander.attempts
  rcases tried with under_way | ended
  · exact .inl (by simp [attempts, under_way])
  · exact .inr (by simp [outcomes_append, ended])

theorem enterStart_of_disabled (valid : m.settings.validate = .ok ())
    (disabled : m.settings.enabled = false) (prompt : m.lifecycle ≠ .starting) (label : String)
    (id : Nat) :
    m.lifecycle = .idle ∧ (m.enterStart s label id).1 = (m.launched.endAttempt id (.ok ())).1
        ∧ outcomes (m.enterStart s label id).2 = [.ok ()]
      ∨ m.lifecycle ≠ .idle ∧ ∃ e, m.enterStart s label id = m.endAttempt id (.error e) := by
  cases lifecycle : m.lifecycle with
  | starting => exact absurd lifecycle prompt
  | running => exact .inr ⟨by simp, .alreadyStarted, by simp [enterStart, valid, lifecycle]⟩
  | stopped => exact .inr ⟨by simp, .stopped, by simp [enterStart, valid, lifecycle]⟩
  | idle =>
    have starting : ({ m with lifecycle := .starting } : Manager).lifecycle = .starting := rfl
    refine .inl ⟨rfl, ?_, ?_⟩
    · simp only [enterStart, valid, lifecycle, disabled, Bool.false_eq_true, if_false,
        finishStart_of_starting starting]
      rfl
    · simp only [enterStart, valid, lifecycle, disabled, Bool.false_eq_true, if_false, finishStart,
        if_true]
      rfl

theorem Granting.endAttempt (h : m.Granting past) {m₀ : Manager} (attempts : m₀.attempts = m.attempts)
    (id : Nat) {result : Except LeaseError Unit} (told : outcomes notes = [result])
    (stage : m₀.lifecycle = .stopped
      ∨ m₀.lifecycle = .running ∧ (outcomes past ++ [result]).head? = some (.ok ())) :
    (m₀.endAttempt id result).1.Granting (past ++ notes) := by
  have fresh : ∀ a ∈ (m₀.endAttempt id result).1.attempts, a.stage = .fresh := by
    intro a member
    rw [Manager.endAttempt, attempts_dropAttempt, attempts] at member
    exact h.fresh a (List.mem_filter.mp member).1
  have after : (m₀.endAttempt id result).1.lifecycle = .stopped
      ∨ (m₀.endAttempt id result).1.lifecycle = .running
        ∧ (outcomes past ++ [result]).head? = some (.ok ()) := by
    rcases m₀.lifecycle_dropAttempt id with same | stopped
    · exact same ▸ stage
    · exact .inl stopped
  rw [← told, ← outcomes_append] at after
  rcases after with stopped | ⟨running, first⟩
  · constructor <;> simp_all
  · constructor <;> simp_all

/-- An attempt ends as soon as it moves, and succeeds if it is the first to do so. -/
theorem Granting.attempt (h : m.Granting past) (valid : m.settings.validate = .ok ())
    (disabled : m.settings.enabled = false) {id : Nat}
    (step : m.stepAttempt s store id = some (m', b, notes)) :
    m'.Granting (past ++ notes) ∧ m'.Tried (past ++ notes) := by
  unfold stepAttempt at step
  split at step
  · cases step
  rename_i a found
  have early := h.fresh a (List.mem_of_find?_eq_some found)
  simp only [early, Option.some.injEq, Prod.mk.injEq] at step
  obtain ⟨rfl, _, rfl⟩ := step
  have tried {result : Except LeaseError Unit} {m' : Manager}
      (told : outcomes (m.enterStart s store.label id).2 = [result]) :
      m'.Tried (past ++ (m.enterStart s store.label id).2) :=
    .inr (by simp [outcomes_append, told])
  rcases enterStart_of_disabled (s := s) valid disabled h.prompt store.label id with
    ⟨idle, eq, told⟩ | ⟨busy, e, eq⟩
  · refine ⟨?_, tried told⟩
    have same : m.launched.attempts = m.attempts := rfl
    rw [eq]
    refine h.endAttempt same id told (.inr ⟨rfl, ?_⟩)
    rw [h.idle idle]
    rfl
  · have told : outcomes (m.enterStart s store.label id).2 = [.error e] := by
      rw [eq]
      rfl
    refine ⟨?_, tried told⟩
    rw [eq] at told ⊢
    refine h.endAttempt rfl id told ?_
    cases lifecycle : m.lifecycle with
    | idle => exact absurd lifecycle busy
    | starting => exact absurd lifecycle h.prompt
    | stopped => exact .inl rfl
    | running =>
      refine .inr ⟨rfl, ?_⟩
      rw [List.head?_append, h.running lifecycle]
      rfl

/-! ## Who ends a manager -/

/-- The application refers to the manager and has not stopped it. -/
structure Alive (m : Manager) : Prop where
  referenced : m.referenced = true
  active : m.lifecycle ≠ .stopped

theorem Alive.dropQueue (h : m.Alive) : m.dropQueue.Alive := by
  obtain ⟨queue, eq⟩ := m.dropQueue_eq
  rw [eq]
  exact ⟨h.referenced, h.active⟩

theorem Alive.dropAttempt (h : m.Alive) (id : Nat) : (m.dropAttempt id).Alive := by
  have without : (m.without id).Alive := ⟨h.referenced, h.active⟩
  rw [dropAttempt_eq, dropIfUnused_of_referenced without.dropQueue.referenced]
  exact without.dropQueue

theorem Alive.endListing (h : m.Alive) (id : Nat) : (m.endListing id).Alive := by
  rw [Manager.endListing, dropIfUnused_of_referenced (by exact h.referenced)]
  exact ⟨h.referenced, h.active⟩

theorem Alive.failStart (h : m.Alive) (id : Nat) (e : LeaseError) : (m.failStart id e).1.Alive := by
  unfold Manager.failStart
  split
  · have idle : ({ m with lifecycle := .idle } : Manager).Alive := ⟨h.referenced, nofun⟩
    exact idle.dropAttempt id
  · exact h.dropAttempt id

theorem Alive.finishStart (h : m.Alive) (label : String) (id : Nat) :
    (m.finishStart label id).1.Alive := by
  by_cases starting : m.lifecycle = .starting
  · have launched : m.launched.Alive := ⟨h.referenced, nofun⟩
    rw [finishStart_of_starting starting]
    exact launched.dropAttempt id
  · rw [finishStart_of_stopped starting]
    exact h.dropAttempt id

theorem Alive.trying (h : m.Alive) {a : Attempt} (trying : m.Trying a m' notes) : m'.Alive := by
  cases trying with
  | refuse early e => exact h.dropAttempt a.id
  | ask stays =>
    refine ⟨h.referenced, ?_⟩
    rcases stays with ⟨rfl, _⟩ | ⟨_, rfl⟩
    · exact h.active
    · exact nofun
  | enterAlone idle fields =>
    have starting : ({ m with lifecycle := .starting } : Manager).Alive := ⟨h.referenced, nofun⟩
    exact starting.finishStart _ a.id
  | fail kept e => exact h.failStart a.id e
  | crash kept overflow => exact h.dropAttempt a.id
  | finish kept => exact h.finishStart _ a.id

/-- No task ends its manager. -/
theorem Alive.stepTask (h : m.Alive) {k : TaskKind}
    (step : m.stepTask s store k = some (m', b, notes)) : m'.Alive := by
  cases k with
  | worker =>
    obtain ⟨w, present, step⟩ := Option.bind_eq_some_iff.mp step
    obtain ⟨r, _, eq⟩ := Option.map_eq_some_iff.mp step
    cases eq
    rw [publishAll_eq]
    exact ⟨h.referenced, h.active⟩
  | scheduler =>
    obtain ⟨sc, present, step⟩ := Option.bind_eq_some_iff.mp step
    obtain ⟨⟨next, ticket⟩, _, eq⟩ := Option.map_eq_some_iff.mp step
    cases ticket with
    | none =>
      cases eq
      exact ⟨h.referenced, h.active⟩
    | some ticket =>
      dsimp only at eq
      split at eq
      · obtain ⟨_, _, same⟩ := send_eq ({ m with scheduler := some next } : Manager) (.maintain ticket)
        cases eq
        rw [same]
        exact ⟨h.referenced, h.active⟩
      · cases eq
        exact ⟨h.referenced, h.active⟩
  | attempt id =>
    obtain ⟨a, _, _, trying⟩ := trying_of_stepAttempt step
    exact h.trying trying
  | listing id =>
    simp only [Manager.stepTask, stepListing] at step
    split at step
    · cases step
    · split at step
      · cases step
        exact ⟨h.referenced, h.active⟩
      · split at step
        · cases step
          exact h.endListing id
        · cases step

theorem Alive.reap (h : m.Alive) (k : TaskKind) : (m.reap k).1.Alive := by
  cases k with
  | worker => exact Alive.dropQueue ⟨h.referenced, h.active⟩
  | scheduler => exact ⟨h.referenced, h.active⟩
  | attempt id | listing id => exact h

end Manager

namespace World

variable {w w' : World} {i : Nat} {p : Participant} {notes past : List Note}

/-- Every action of an attempt to start lets it move, and no other action concerns attempts. -/
theorem Deed.granting {m : Manager} (deed : w.Deed w' i p m notes)
    (valid : p.manager.settings.validate = .ok ()) (disabled : p.manager.settings.enabled = false)
    (granting : p.manager.Granting past) :
    m.Granting (past ++ notes) ∧ (p.manager.Tried past → m.Tried (past ++ notes)) := by
  have aside {m : Manager} {notes : List Note} (bystander : p.manager.Bystander m notes) :
      m.Granting (past ++ notes) ∧ (p.manager.Tried past → m.Tried (past ++ notes)) :=
    ⟨granting.beside bystander, fun tried => tried.beside bystander⟩
  cases deed with
  | create name =>
    obtain ⟨_, _, _, eq⟩ := p.manager.createHandle_eq name
    exact aside (Manager.bystander_of_same (by rw [eq]) (.inl (by rw [eq]))
      (p.manager.outcomes_createHandle name))
  | release id =>
    obtain ⟨_, _, _, eq⟩ := p.manager.releaseHandle_eq id
    exact aside (Manager.bystander_of_same (by rw [eq]) (.inl (by rw [eq]))
      (p.manager.outcomes_releaseHandle id))
  | stop =>
    exact aside (Manager.bystander_of_same p.manager.attempts_stop (.inr p.manager.lifecycle_stop)
      p.manager.outcomes_stop)
  | abandon =>
    exact aside (Manager.bystander_of_same (Manager.attempts_dropIfUnused _)
      (Manager.lifecycle_dropIfUnused _) rfl)
  | start counted =>
    exact aside ⟨⟨[⟨w.nextRequest, .fresh⟩], rfl, by simp⟩, .inl rfl, rfl⟩
  | list => exact aside (Manager.bystander_of_same rfl (.inl rfl) rfl)
  | @step kind m b notes moving placed step =>
    cases kind with
    | worker =>
      obtain ⟨_, lifecycle, attempts, _⟩ := Manager.stepWorker_eq step
      exact aside (Manager.bystander_of_same attempts (.inl lifecycle)
        (Manager.outcomes_stepWorker step))
    | scheduler =>
      obtain ⟨_, lifecycle, attempts, _⟩ := Manager.stepScheduler_eq step
      exact aside (Manager.bystander_of_same attempts (.inl lifecycle)
        (Manager.outcomes_stepScheduler step))
    | attempt id =>
      obtain ⟨granting', tried⟩ := granting.attempt valid disabled step
      exact ⟨granting', fun _ => tried⟩
    | listing id =>
      obtain ⟨_, attempts, lifecycle⟩ := Manager.staging_of_stepListing step
      exact aside (Manager.bystander_of_same attempts lifecycle (Manager.outcomes_stepListing step))
  | @reap kind aborted =>
    obtain ⟨lifecycle, attempts⟩ := p.manager.reap_eq kind
    exact aside (Manager.bystander_of_same attempts (.inl lifecycle) (p.manager.outcomes_reap kind))

theorem attempts_start (act : w.act? (.start i) = some w') (present' : w'.participants[i]? = some p) :
    p.manager.attempts ≠ [] := by
  obtain rfl : (w.start i).2 = w' := Option.some.inj act
  obtain ⟨q, there⟩ : ∃ q, w.participants[i]? = some q := by
    have length := (change_of_act? act).length_participants
    have inside := (List.getElem?_eq_some_iff.mp present').1
    rw [length] at inside
    exact ⟨_, List.getElem?_eq_getElem inside⟩
  simp [World.start, changeManager, there, note, setManager, Manager.beginStart] at present'
  simp [← present']

/-- A manager of these settings, whose first attempt to start succeeds. If it has been asked to start,
    there is such an attempt. -/
def Grants (w : World) (i : Nat) (settings : Settings) (asked : Prop) : Prop :=
  ∀ p, w.participants[i]? = some p → p.manager.settings = settings
    ∧ p.manager.Granting (w.notesOf i) ∧ (asked → p.manager.Tried (w.notesOf i))

theorem Begins.grants {settings : Settings} (begins : w.Begins)
    (given : ∀ p, w.participants[i]? = some p → p.manager.settings = settings) :
    w.Grants i settings False := by
  intro p present
  refine ⟨given p present, ?_, False.elim⟩
  obtain ⟨owner, settings', eq⟩ := begins.manager_fresh (List.mem_of_getElem? present)
  have none : w.notesOf i = [] := by
    rw [notesOf, begins.journal_nil]
    rfl
  rw [eq, none]
  exact Manager.granting_fresh owner settings'

section Run

variable {settings : Settings} (valid : settings.validate = .ok ()) (disabled : settings.enabled = false)

include valid disabled

theorem Grants.act {asked : Prop} (h : w.Grants i settings asked) {a : Action}
    (act : w.act? a = some w') : w'.Grants i settings (asked ∨ a = .start i) := by
  intro p' present'
  have started : a = .start i → p'.manager.Tried (w'.notesOf i) := by
    rintro rfl
    exact .inl (attempts_start act present')
  obtain ⟨p, present, ⟨same, past⟩ | ⟨notes, deed, past⟩⟩ := deed_of_act? act present'
  · obtain ⟨mine, granting, tried⟩ := h p present
    rw [same, past] at started ⊢
    exact ⟨mine, granting, fun why => why.elim tried started⟩
  · obtain ⟨mine, granting, tried⟩ := h p present
    obtain ⟨_, move⟩ := deed.move
    obtain ⟨granting', later⟩ := deed.granting (mine ▸ valid) (mine ▸ disabled) granting
    rw [past] at started ⊢
    exact ⟨move.frame.2.trans mine, granting', fun why => why.elim (later ∘ tried) started⟩

theorem Grants.run {asked : Prop} (h : w.Grants i settings asked) {actions : List Action}
    (run : w.run? actions = some w') : w'.Grants i settings (asked ∨ .start i ∈ actions) := by
  induction actions generalizing w asked with
  | nil =>
    cases run
    simpa using h
  | cons a actions ih =>
    obtain ⟨next, act, run⟩ := Option.bind_eq_some_iff.mp run
    have later := ih (h.act valid disabled act) run
    rwa [or_assoc, eq_comm, ← List.mem_cons] at later

end Run

/-! ## What ends a manager -/

/-- Whether an action tells a manager to end. -/
def Action.ends (i : Nat) : Action → Bool
  | .stop j | .abandon j => j = i
  | _ => false

theorem changeManager_keeps {P : Manager → Prop} {j : Nat} {f : Manager → Manager × List Note}
    (keeps : j = i → ∀ m, P m → P (f m).1)
    (before : ∀ p, w.participants[i]? = some p → P p.manager) :
    ∀ p, (w.changeManager j f).1.participants[i]? = some p → P p.manager := by
  intro p' present'
  unfold changeManager at present'
  split at present'
  · exact before p' present'
  · rename_i q there
    change (w.setManager j _).participants[i]? = some p' at present'
    rw [setManager_participants there, List.getElem?_set] at present'
    split at present'
    · rename_i own
      subst own
      split at present'
      · cases present'
        exact keeps rfl q.manager (before q there)
      · cases present'
    · exact before p' present'

theorem alive_reap {t : Task} (before : ∀ p, w.participants[i]? = some p → p.manager.Alive) :
    ∀ p, (w.reap t).participants[i]? = some p → p.manager.Alive := by
  unfold reap
  split
  · exact changeManager_keeps (fun _ _ alive => alive.reap t.kind) before
  · exact before

/-- Nothing ends a manager but what tells it to. -/
theorem alive_of_act? {a : Action} (act : w.act? a = some w') (spared : a.ends i = false)
    (before : ∀ p, w.participants[i]? = some p → p.manager.Alive) :
    ∀ p, w'.participants[i]? = some p → p.manager.Alive := by
  have unmoved (unmoved : w.Unmoved w') : ∀ p, w'.participants[i]? = some p → p.manager.Alive := by
    intro p' present'
    obtain ⟨p, present, same, _⟩ := unmoved i p' present'
    exact same ▸ before p present
  cases occurs_of_act? act with
  | start j | list j =>
    exact changeManager_keeps (fun _ _ alive => ⟨alive.referenced, alive.active⟩) before
  | create j name =>
    refine changeManager_keeps (fun _ m alive => ?_) before
    obtain ⟨_, _, _, same⟩ := m.createHandle_eq name
    rw [same]
    exact ⟨alive.referenced, alive.active⟩
  | release j handle =>
    refine changeManager_keeps (fun _ m alive => ?_) before
    obtain ⟨_, _, _, same⟩ := m.releaseHandle_eq handle
    rw [same]
    exact ⟨alive.referenced, alive.active⟩
  | stop j | abandon j =>
    refine changeManager_keeps (fun own _ _ => ?_) before
    simp [Action.ends, own] at spared
  | setLink j link => exact unmoved (w.unmoved_setLink j link)
  | setClock j clock => exact unmoved (w.unmoved_setClock j clock)
  | use store request => exact unmoved (w.unmoved_use store request)
  | land landed => exact unmoved landed.unmoved
  | reap aborted => exact alive_reap before
  | pick able alive => exact before
  | step moving step =>
    obtain ⟨q, m, b, moved, _, stepped⟩ := moved_of_stepTask? step
    intro p' present'
    obtain ⟨p, present, ⟨same, _⟩ | ⟨rfl, rfl, same, _⟩⟩ :=
      past_of_moved moved.present moved.participants moved.journal present'
    · exact same ▸ before p present
    · exact same ▸ (before p present).stepTask stepped
  | rest moving rests => exact alive_reap before
  | tick quiet => exact before

theorem alive_of_run {actions : List Action} (run : w.run? actions = some w')
    (spared : ∀ a ∈ actions, a.ends i = false)
    (before : ∀ p, w.participants[i]? = some p → p.manager.Alive) :
    ∀ p, w'.participants[i]? = some p → p.manager.Alive := by
  induction actions generalizing w with
  | nil =>
    cases run
    exact before
  | cons a actions ih =>
    obtain ⟨next, act, run⟩ := Option.bind_eq_some_iff.mp run
    have now := alive_of_act? act (spared a List.mem_cons_self) before
    exact ih run (fun b member => spared b (List.mem_cons_of_mem a member)) now

end World

end Leasehold
