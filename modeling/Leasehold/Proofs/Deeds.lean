import Leasehold.Proofs.Chronicle

/-! # What an action does to one manager

`World.Deed` says of every action what it does to the manager of a participant, down to the number of an
attempt that begins and the task that moves. Where `World.Change` is enough, it is used instead; the
transition function is opened here for what a change forgets.
-/

namespace Leasehold.World

variable {w w' : World} {i : Nat} {p p' : Participant} {a : Action} {notes : List Note}

/-- What an action does to the manager of a participant. -/
inductive Deed (w w' : World) (i : Nat) (p : Participant) : Manager → List Note → Prop where
  | create (name : String) :
      Deed w w' i p (p.manager.createHandle name).2.1 (p.manager.createHandle name).2.2
  | release (id : Nat) : Deed w w' i p (p.manager.releaseHandle id).1 (p.manager.releaseHandle id).2
  | stop : Deed w w' i p p.manager.stop.1 p.manager.stop.2
  | abandon : Deed w w' i p p.manager.abandon []
  /-- The attempt has a number that no attempt had before. -/
  | start (counted : w.nextRequest < w'.nextRequest) :
      Deed w w' i p (p.manager.beginStart w.nextRequest) []
  | list : Deed w w' i p (p.manager.beginListing w.nextRequest) []
  | step {kind : TaskKind} {m : Manager} {b : Backend} {notes : List Note}
      (moving : ⟨i, kind⟩ ∈ w.moving) (placed : p.store < w.stores.length)
      (step : p.manager.stepTask (w.surroundings p) (w.storeOf p) kind = some (m, b, notes)) :
      Deed w w' i p m notes
  | reap {kind : TaskKind} (aborted : p.manager.isAborted kind = true) :
      Deed w w' i p (p.manager.reap kind).1 (p.manager.reap kind).2

theorem Deed.move {m : Manager} (deed : w.Deed w' i p m notes) :
    ∃ b, p.manager.Move (w.surroundings p) (w.storeOf p) m b notes := by
  cases deed with
  | create name => exact ⟨_, .create name⟩
  | release id => exact ⟨_, .release id⟩
  | stop => exact ⟨_, .stop⟩
  | abandon => exact ⟨_, .abandon⟩
  | start counted => exact ⟨_, .beginStart _⟩
  | list => exact ⟨_, .beginListing _⟩
  | step moving placed step => exact ⟨_, Manager.move_of_stepTask step⟩
  | reap aborted => exact ⟨_, Manager.move_of_reap aborted⟩

/-- A participant after an action, and what has been added to its past. -/
def Follows (w w' : World) (i : Nat) (p p' : Participant) : Prop :=
  p'.manager = p.manager ∧ w'.notesOf i = w.notesOf i
    ∨ ∃ notes, w.Deed w' i p p'.manager notes ∧ w'.notesOf i = w.notesOf i ++ notes

/-- Neither the numbering of requests nor the picked tasks have changed. -/
def SameTurn (w w' : World) : Prop := w'.nextRequest = w.nextRequest ∧ w'.moving = w.moving

theorem sameTurn_changeManager (w : World) (j : Nat) (f : Manager → Manager × List Note) :
    w.SameTurn (w.changeManager j f).1 := by
  unfold changeManager
  split <;> exact ⟨rfl, rfl⟩

theorem sameTurn_reap (w : World) (t : Task) : w.SameTurn (w.reap t) := by
  unfold reap
  split
  · exact w.sameTurn_changeManager _ _
  · exact ⟨rfl, rfl⟩

theorem follows_of_unmoved (unmoved : w.Unmoved w') (present' : w'.participants[i]? = some p') :
    ∃ p, w.participants[i]? = some p ∧ w.Follows w' i p p' := by
  obtain ⟨p, present, same⟩ := unmoved i p' present'
  exact ⟨p, present, .inl same⟩

/-- A change of one manager, seen from any participant. -/
theorem follows_of_changeManager {w₀ : World} {j : Nat} {f : Manager → Manager × List Note}
    (same : w₀.SameMatter w)
    (deed : ∀ p, w₀.participants[j]? = some p →
      w₀.Deed (w.changeManager j f).1 j p (f p.manager).1 (f p.manager).2)
    (present' : (w.changeManager j f).1.participants[i]? = some p') :
    ∃ p, w₀.participants[i]? = some p ∧ w₀.Follows (w.changeManager j f).1 i p p' := by
  cases there : w.participants[j]? with
  | none =>
    have eq : (w.changeManager j f).1 = w := by simp [changeManager, there]
    rw [eq] at present' ⊢
    exact follows_of_unmoved (unmoved_of_same same.participants same.journal) present'
  | some q =>
    have there₀ : w₀.participants[j]? = some q := by rw [← same.participants]; exact there
    have eq : (w.changeManager j f).1
        = (w.setManager j (f q.manager).1).note (some j) (f q.manager).2 := by
      simp [changeManager, there]
    have participants : (w.changeManager j f).1.participants
        = w₀.participants.set j { q with manager := (f q.manager).1 } := by
      rw [eq, ← same.participants]
      exact setManager_participants there _
    have journal : (w.changeManager j f).1.journal = w₀.lines j (f q.manager).2 ++ w₀.journal := by
      rw [eq]
      simp only [note, setManager, lines, same.now, same.journal]
    obtain ⟨p, present, still | ⟨rfl, rfl, manager, past⟩⟩ :=
      past_of_moved there₀ participants journal present'
    · exact ⟨p, present, .inl still⟩
    · exact ⟨p, present, .inr ⟨_, manager ▸ deed p there₀, past⟩⟩

theorem follows_of_reap {w₀ : World} (t : Task) (same : w₀.SameMatter w)
    (present' : (w.reap t).participants[i]? = some p') :
    ∃ p, w₀.participants[i]? = some p ∧ w₀.Follows (w.reap t) i p p' := by
  unfold reap at present' ⊢
  split at present'
  · rename_i aborted
    rw [if_pos aborted]
    refine follows_of_changeManager same (fun q there => .reap ?_) present'
    have there' : w.participants[t.participant]? = some q := by rw [same.participants, there]
    simpa [isAborted, there'] using aborted
  · rename_i alive
    rw [if_neg alive]
    exact follows_of_unmoved (unmoved_of_same same.participants same.journal) present'

/-- Every action is a deed of at most one participant. -/
theorem deed_of_act? (act : w.act? a = some w') (present' : w'.participants[i]? = some p') :
    ∃ p, w.participants[i]? = some p ∧ w.Follows w' i p p' := by
  cases occurs_of_act? act with
  | start j =>
    refine follows_of_changeManager ⟨rfl, rfl, rfl, rfl, rfl, rfl⟩ (fun q there => .start ?_) present'
    rw [(sameTurn_changeManager _ _ _).1]
    exact Nat.lt_succ_self _
  | list j => exact follows_of_changeManager ⟨rfl, rfl, rfl, rfl, rfl, rfl⟩ (fun q there => .list) present'
  | create j name => exact follows_of_changeManager (.refl w) (fun q there => .create name) present'
  | release j handle => exact follows_of_changeManager (.refl w) (fun q there => .release handle) present'
  | stop j => exact follows_of_changeManager (.refl w) (fun q there => .stop) present'
  | abandon j => exact follows_of_changeManager (.refl w) (fun q there => .abandon) present'
  | setLink j link => exact follows_of_unmoved (w.unmoved_setLink j link) present'
  | setClock j clock => exact follows_of_unmoved (w.unmoved_setClock j clock) present'
  | use store request => exact follows_of_unmoved (w.unmoved_use store request) present'
  | land landed => exact follows_of_unmoved landed.unmoved present'
  | reap aborted => exact follows_of_reap _ (.refl w) present'
  | pick able alive => exact follows_of_unmoved (unmoved_of_same rfl rfl) present'
  | step moving step =>
    obtain ⟨q, m, b, moved, placed, stepped⟩ := moved_of_stepTask? step
    obtain ⟨p, present, still | ⟨rfl, rfl, manager, past⟩⟩ :=
      past_of_moved moved.present moved.participants moved.journal present'
    · exact ⟨p, present, .inl still⟩
    · exact ⟨p, present, .inr ⟨_, manager ▸ .step moving placed stepped, past⟩⟩
  | rest moving rests => exact follows_of_reap _ ⟨rfl, rfl, rfl, rfl, rfl, rfl⟩ present'
  | tick quiet => exact follows_of_unmoved (unmoved_of_same rfl rfl) present'

/-- A task begins to move: it has been picked, and has not been told to end. -/
def SetsOff (w w' : World) (t : Task) : Prop :=
  t ∈ w.tasks ∧ w'.participants = w.participants ∧ w.isAborted t = false

/-- Numbers are not used again, and a task moves only if it has been moving or sets off. -/
theorem turn_of_act? (act : w.act? a = some w') : w.nextRequest ≤ w'.nextRequest
    ∧ ∀ t ∈ w'.moving, t ∈ w.moving ∨ w.SetsOff w' t := by
  have still (same : w.SameTurn w') : w.nextRequest ≤ w'.nextRequest
      ∧ ∀ t ∈ w'.moving, t ∈ w.moving ∨ w.SetsOff w' t :=
    ⟨Nat.le_of_eq same.1.symm, fun t moving => .inl (same.2 ▸ moving)⟩
  cases occurs_of_act? act with
  | start j | list j =>
    have same := sameTurn_changeManager { w with nextRequest := w.nextRequest + 1 } j
    exact ⟨Nat.le_of_lt (Nat.lt_of_lt_of_eq (Nat.lt_succ_self _) (same _).1.symm),
      fun t moving => .inl ((same _).2 ▸ moving)⟩
  | create j | release j | stop j | abandon j => exact still (w.sameTurn_changeManager j _)
  | setLink j link | setClock j clock | tick quiet => exact still ⟨rfl, rfl⟩
  | use store request =>
    apply still
    unfold use
    split <;> exact ⟨rfl, rfl⟩
  | land landed => exact still (landed.eq ▸ ⟨rfl, rfl⟩)
  | reap aborted => exact still (w.sameTurn_reap _)
  | pick able alive =>
    refine ⟨Nat.le_refl _, fun t moving => ?_⟩
    rcases List.mem_cons.mp moving with rfl | old
    · exact .inr ⟨able, rfl, alive⟩
    · exact .inl old
  | step moving step =>
    obtain ⟨q, there, step⟩ := Option.bind_eq_some_iff.mp step
    obtain ⟨store, found, step⟩ := Option.bind_eq_some_iff.mp step
    obtain ⟨⟨m, b, ns⟩, stepped, step⟩ := Option.bind_eq_some_iff.mp step
    cases step
    exact still ⟨rfl, rfl⟩
  | @rest t moving rests =>
    have same := sameTurn_reap { w with moving := w.moving.filter (· ≠ t) } t
    refine ⟨Nat.le_of_eq same.1.symm, fun u moving => .inl ?_⟩
    rw [same.2] at moving
    exact (List.mem_filter.mp moving).1

/-- What every action preserves holds at the end of every run. -/
theorem run?_induction {P : World → Prop}
    (step : ∀ w a w', P w → w.act? a = some w' → P w') {actions : List Action}
    (run : w.run? actions = some w') (start : P w) : P w' := by
  induction actions generalizing w with
  | nil =>
    cases run
    exact start
  | cons a actions ih =>
    obtain ⟨next, act, run⟩ := Option.bind_eq_some_iff.mp run
    exact ih run (step w a next start act)

end Leasehold.World
