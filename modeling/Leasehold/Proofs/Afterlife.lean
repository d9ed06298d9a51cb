import Leasehold.Proofs.Events
import Leasehold.Proofs.Expirations
import Leasehold.Proofs.Lifespan

/-! # What handles show after the end

A handle shows the flag that the worker published last. Once a manager has ended, nobody publishes
anything: neither time nor what becomes of the rows changes a flag, and only the holder can take an
acquired handle back.
-/

namespace Leasehold

theorem Aftermath.eventsIn {notes : List Note} (aftermath : Aftermath notes) :
    Leasehold.eventsIn notes = [] := by
  rw [Leasehold.eventsIn, List.filterMap_eq_nil_iff]
  intro n member
  have quiet := (aftermath n member).1
  cases n with
  | event name id acquired => cases quiet
  | _ => rfl

namespace World

variable {w w' : World} {i : Nat} {p p' : Participant}

/-- The manager of a participant has been stopped, or nobody refers to it any more. -/
def Ended (w : World) (i : Nat) : Prop :=
  ∃ p, w.participants[i]? = some p ∧ p.manager.lifecycle = .stopped

theorem ended_of_changeManager (present : w.participants[i]? = some p)
    {f : Manager → Manager × List Note} (stopped : (f p.manager).1.lifecycle = .stopped) :
    (w.changeManager i f).1.Ended i := by
  refine ⟨{ p with manager := (f p.manager).1 }, ?_, stopped⟩
  simp [changeManager, present, note, setManager]

theorem stopped_abandon {m : Manager} (attempts : m.attempts = []) (listings : m.listings = []) :
    m.abandon.lifecycle = .stopped := by
  have unused : ({ m with referenced := false } : Manager).inUse = false := by
    simp [Manager.inUse, attempts, listings]
  rw [Manager.abandon, Manager.dropIfUnused, unused]
  exact Manager.lifecycle_dropQueue _

/-- No time passes before worker and scheduler of a stopped manager are gone. -/
theorem Ending.gone (h : w.Ending i p) (quiet : w.isQuiet = true) :
    p.manager.worker = none ∧ p.manager.scheduler = none := by
  simp only [isQuiet, Bool.and_eq_true, List.all_eq_true] at quiet
  have still {kind : TaskKind} (background : kind = .worker ∨ kind = .scheduler) :
      kind ∉ p.manager.tasks := by
    intro member
    have rests := quiet.2 _ ((mem_tasks_iff h.present).mpr member)
    have aborted := h.aborted member background
    simp [canMove, isAborted, h.present, aborted] at rests
  constructor
  · have none := still (.inl rfl)
    simpa [Manager.tasks] using none
  · have none := still (.inr rfl)
    simpa [Manager.tasks] using none

/-- After the end a handle says that it is acquired only if it said so then, and says so until it is
    given up. -/
theorem Halted.handles (halted : w.Halted i p) (reachable : w.Reachable) {later : List Action}
    (run : w.run? later = some w') (present' : w'.participants[i]? = some p') :
    (∀ id, w'.history i id = w.history i id)
      ∧ (∀ h ∈ p.manager.handles, ∃ h' ∈ p'.manager.handles, h'.id = h.id)
      ∧ ∀ h' ∈ p'.manager.handles, h'.isAcquired = true
        ↔ h'.released = false ∧ ∃ h ∈ p.manager.handles, h.id = h'.id ∧ h.isAcquired = true := by
  obtain ⟨q, halted', news, past, quiet⟩ := halted.run run
  obtain rfl := Option.some.inj (present'.symm.trans halted'.present)
  have told_same (id : Nat) : told id (w'.notesOf i) = told id (w.notesOf i) := by
    rw [past, told_append, told_of_quiet quiet.eventsIn, List.append_nil]
  have recorded := reachable.recorded halted.present
  have recorded' := (reachable.run run).recorded present'
  obtain ⟨grown, stays⟩ := reachable.handles_of_run halted.present run present'
  have flag {h' : Handle} (member' : h' ∈ p'.manager.handles) :
      h'.published = latest (told h'.id (w.notesOf i)) := by
    rw [← told_same]
    exact recorded'.heard.shown h' member'
  refine ⟨told_same, fun h member => ?_, fun h' member' => ?_⟩
  · exact recorded'.balanced.exists_handle (Nat.lt_of_lt_of_le (recorded.balanced.id_lt member) grown)
  · simp only [Handle.isAcquired, Bool.and_eq_true, Bool.not_eq_true']
    constructor
    · rintro ⟨held, published⟩
      refine ⟨held, ?_⟩
      rw [flag member'] at published
      have old : h'.id < p.manager.registry.nextId := by
        by_contra young
        rw [recorded.heard.unborn h'.id (not_lt.mp young)] at published
        cases published
      obtain ⟨h, member, number⟩ := recorded.balanced.exists_handle old
      refine ⟨h, member, number, ?_, ?_⟩
      · rw [← Bool.not_eq_true]
        intro released
        have all : ∀ k ∈ p.manager.handles, k.id = h'.id → k.released = true := by
          intro k inside same
          rw [recorded.balanced.handle_eq inside member (same.trans number.symm)]
          exact released
        rw [stays h'.id old all h' member' rfl] at held
        cases held
      · rw [recorded.heard.shown h member, number]
        exact published
    · rintro ⟨held, h, member, number, _, published⟩
      refine ⟨held, ?_⟩
      rw [flag member', ← number, ← recorded.heard.shown h member]
      exact published

/-- One manager acquires a lease at time 0, and its row ends at 8. -/
def tenure : List Action :=
  .start 0 :: turn 0 (.attempt 0) 4 ++ .create 0 "x" :: turn 0 .scheduler 2 ++ turn 0 .worker 9

/-- The manager is ended in this way, and its worker and scheduler with it. -/
def ending (last : Action) : List Action := [last, .pick ⟨0, .worker⟩, .pick ⟨0, .scheduler⟩]

/-- When its clock is past the end of the row, another manager collects the row and takes the name. -/
def takeover : List Action :=
  List.replicate 9 .tick ++ .start 1 :: turn 1 (.attempt 1) 4 ++ .create 1 "x" :: turn 1 .scheduler 2
    ++ turn 1 .worker 9

/-- After the end of a manager in this way, its clock is past all that it has confirmed, the name is
    another manager's, and its own handle still says that it is acquired. -/
def ClaimsOn (last : Action) : Prop :=
  ∃ (w w' : World) (p p' : Participant) (k : Worker) (h h' : Handle),
    rivals.founded.run? tenure = some w ∧ w.participants[0]? = some p
      ∧ p.manager.worker = some k ∧ k.confirmedUntil = some 8
      ∧ w.run? (ending last ++ takeover) = some w' ∧ w'.Ended 0
      ∧ w'.participants[0]? = some p' ∧ h ∈ p'.manager.handles ∧ w'.clockOf 0 = some 9
      ∧ h.isAcquired = true ∧ w'.Shown 1 h' ∧ h'.name = h.name

/-- Handles outlive what they say, however their manager ends. -/
theorem claims_on_after_the_end : ClaimsOn (.stop 0) ∧ ClaimsOn (.abandon 0) := by
  let x : Handle := ⟨"x", 0, false, true⟩
  constructor
  · exact ⟨_, _, _, _, _, x, x, rfl, rfl, rfl, rfl, rfl, ⟨_, rfl, rfl⟩, rfl, .head _, rfl, rfl,
      ⟨_, rfl, rfl, .head _, rfl⟩, rfl⟩
  · exact ⟨_, _, _, _, _, x, x, rfl, rfl, rfl, rfl, rfl, ⟨_, rfl, rfl⟩, rfl, .head _, rfl, rfl,
      ⟨_, rfl, rfl, .head _, rfl⟩, rfl⟩

/-- A manager ends when it is stopped, or when the application lets go of it while nothing of it is under
    way, and no time passes before its worker and scheduler are gone. From then on nobody is told
    anything: a handle says that it is acquired only if it said so at that moment, and as long as it has
    not been given up, whatever becomes of its row. Once it has been given up it never says so again. -/
theorem handles_after_the_end {start : World} {actions : List Action} (begins : start.Begins)
    (run : start.run? actions = some w) (present : w.participants[i]? = some p) :
    (w.stop i).Ended i
      ∧ (p.manager.attempts = [] → p.manager.listings = [] → (w.abandon i).Ended i)
      ∧ (p.manager.lifecycle = .stopped → w.isQuiet = true →
        p.manager.worker = none ∧ p.manager.scheduler = none)
      ∧ (p.manager.lifecycle = .stopped → ⟨i, .worker⟩ ∉ w.moving → ⟨i, .scheduler⟩ ∉ w.moving →
        ∀ later w' p', w.run? later = some w' → w'.participants[i]? = some p' →
            (∀ id, w'.history i id = w.history i id)
              ∧ (∀ h ∈ p.manager.handles, ∃ h' ∈ p'.manager.handles, h'.id = h.id)
              ∧ ∀ h' ∈ p'.manager.handles, h'.isAcquired = true
                ↔ h'.released = false ∧ ∃ h ∈ p.manager.handles, h.id = h'.id ∧ h.isAcquired = true)
      ∧ ∀ h ∈ p.manager.handles, ∀ later w' p', (w.release i h.id).run? later = some w' →
          w'.participants[i]? = some p' →
            ∀ h' ∈ p'.manager.handles, h'.id = h.id → h'.isAcquired = false := by
  have reachable : w.Reachable := ⟨start, actions, begins, run⟩
  have staged := reachable.staged (List.mem_of_getElem? present)
  refine ⟨ended_of_changeManager present p.manager.lifecycle_stop, fun attempts listings => ?_,
    fun stopped quiet => ?_, fun stopped worker scheduler later w' p' run' present' => ?_,
    fun h member later w' p' run' present' => ?_⟩
  · exact ended_of_changeManager present (stopped_abandon attempts listings)
  · have rests : w.moving = [] := by
      simp only [isQuiet, Bool.and_eq_true, List.isEmpty_iff] at quiet
      exact quiet.1
    have halted : w.Halted i p := ⟨⟨present, staged, stopped⟩, by simp [rests], by simp [rests]⟩
    exact halted.toEnding.gone quiet
  · have halted : w.Halted i p := ⟨⟨present, staged, stopped⟩, worker, scheduler⟩
    exact halted.handles reachable run' present'
  · exact reachable.never_acquired present member run' present'

theorem handles_after_the_end_tenure : ∃ (w : World) (p : Participant) (h : Handle),
    rivals.founded.run? (tenure ++ ending (.stop 0)) = some w ∧ w.participants[0]? = some p
      ∧ p.manager.lifecycle = .stopped ∧ p.manager.worker = none ∧ p.manager.scheduler = none
      ∧ h ∈ p.manager.handles ∧ h.isAcquired = true
      ∧ ∀ later w' p', w.run? later = some w' → w'.participants[0]? = some p' →
        ∃ h' ∈ p'.manager.handles, h'.id = h.id ∧ (h'.isAcquired = true ↔ h'.released = false) := by
  let x : Handle := ⟨"x", 0, false, true⟩
  have run : rivals.founded.run? (tenure ++ ending (.stop 0)) = some _ := rfl
  obtain ⟨_, _, gone, silent, _⟩ :=
    handles_after_the_end rivals.founded_opening.begins run (i := 0) rfl
  obtain ⟨worker, scheduler⟩ := gone rfl rfl
  refine ⟨_, _, x, run, rfl, rfl, worker, scheduler, .head _, rfl, fun later w' p' run' present' => ?_⟩
  obtain ⟨_, kept, flags⟩ := silent rfl (by decide) (by decide) later w' p' run' present'
  obtain ⟨h', member', number⟩ := kept x (.head _)
  refine ⟨h', member', number, ?_⟩
  rw [flags h' member', and_iff_left ⟨x, .head _, number.symm, rfl⟩]

end World

end Leasehold
