import Leasehold.Proofs.Chronicle

/-! # Calls that have been given up

A call is adrift once its caller has given it up, and only workers give calls up. So whatever a store
carries out late is what a worker was waiting for at an earlier moment of the run.
-/

namespace Leasehold

/-- The requests that are given up, the first first. -/
def cancelledIn (notes : List Note) : List Request := notes.filterMap Note.cancelled?

section Lists

variable {notes : List Note}

theorem cancelledIn_append (notes notes' : List Note) :
    cancelledIn (notes ++ notes') = cancelledIn notes ++ cancelledIn notes' := List.filterMap_append

theorem cancelledIn_eq_nil (silent : ∀ n ∈ notes, n.cancelled? = none) : cancelledIn notes = [] :=
  List.filterMap_eq_nil_iff.mpr silent

theorem Remarks.cancelledIn (remarks : Remarks notes) : Leasehold.cancelledIn notes = [] :=
  cancelledIn_eq_nil fun n member => by
    have said := remarks n member
    cases n <;> first | rfl | cases said

end Lists

theorem cancelledIn_finish (c : Call) (caller : Caller) (trueTime : Int) (store : Backend) :
    cancelledIn (c.finish caller trueTime store).2.2 = [] :=
  cancelledIn_eq_nil fun n member => by
    rcases Call.mem_finish member with rfl | ⟨_, rfl⟩ | ⟨_, rfl⟩ | ⟨_, _, _, rfl⟩ <;> rfl

namespace Worker

variable {w : Worker} {s : Surroundings}

theorem cancelledIn_acknowledge (tickets : List Nat) : cancelledIn (acknowledge tickets) = [] :=
  cancelledIn_eq_nil fun n member => by
    obtain ⟨ticket, _, rfl⟩ := List.mem_map.mp member
    rfl

theorem cancelledIn_purge (c : Cycle) (names : List String) : cancelledIn (w.purge s c names).2 = [] := by
  cases names with
  | nil => exact cancelledIn_acknowledge c.tickets
  | cons name rest => rfl

theorem cancelledIn_resume (c : Cycle) (reply : Reply) : cancelledIn (w.resume s c reply).2 = [] := by
  unfold resume
  split
  · dsimp only
    split <;> rfl
  · dsimp only
    split <;> rfl
  · rfl
  · simp only [cancelledIn_append, (remarks_reconcile _ _).cancelledIn, cancelledIn_purge, List.append_nil]
  · exact cancelledIn_purge _ _

theorem cancelledIn_failCycle (label : String) (c : Cycle) (e : LeaseError) :
    cancelledIn (w.failCycle s label c e).2 = [] := by
  have rest : cancelledIn (.cycleEnded false :: acknowledge c.tickets) = [] :=
    cancelledIn_acknowledge c.tickets
  have lost : cancelledIn (w.giveUp s).2 = [] := remarks_giveUp.cancelledIn
  have both := cancelledIn_append (w.giveUp s).2 (.cycleEnded false :: acknowledge c.tickets)
  rw [rest, lost] at both
  exact both

/-- A worker gives up the call that it waits for. -/
theorem Move.cancelled {queue : List Command} {store : Backend} {r : WorkerStep}
    (move : w.Move s queue store r) {request : Request} (given : request ∈ cancelledIn r.notes) :
    ∃ call, w.call? = some call ∧ call.request = request := by
  have nothing {notes : List Note} (silent : cancelledIn notes = []) (given : request ∈ cancelledIn notes) :
      ∃ call, w.call? = some call ∧ call.request = request := by
    simp [silent] at given
  cases move with
  | @take c _ _ b listening => exact nothing (remarks_apply c b).cancelledIn given
  | beginCycle draining => exact nothing rfl given
  | beginRelease parting => exact nothing rfl given
  | endRelease releasing due =>
    refine nothing ?_ given
    rw [cancelledIn_append, cancelledIn_finish, (remarks_endRelease _ _).cancelledIn]
    rfl
  | @abandonRelease _ _ r releasing pending late =>
    have told : cancelledIn (w.abandonRelease s r).2 = [r.call.request] :=
      congrArg (r.call.request :: ·) remarks_giveUp.cancelledIn
    rw [told] at given
    exact ⟨r.call, by simp [call?, releasing], (List.mem_singleton.mp given).symm⟩
  | resume cycling due answered =>
    refine nothing ?_ given
    rw [cancelledIn_append, cancelledIn_finish, cancelledIn_resume]
    rfl
  | failCycle cycling due failed =>
    refine nothing ?_ given
    rw [cancelledIn_append, cancelledIn_finish, cancelledIn_failCycle]
    rfl
  | @overrun _ _ c cycling pending late =>
    have told := congrArg (c.call.request :: ·) (cancelledIn_failCycle (w := w) (s := s) store.label c (overdue c))
    replace given : request ∈ [c.call.request] := told ▸ given
    exact ⟨c.call, by simp [call?, cycling], (List.mem_singleton.mp given).symm⟩

end Worker

namespace Manager

variable {m m' : Manager} {s : Surroundings} {store b : Backend} {notes : List Note}

theorem cancelledIn_send (m : Manager) (c : Command) : cancelledIn (m.send c).2 = [] := by
  unfold send
  split <;> rfl

theorem cancelledIn_createHandle (m : Manager) (name : String) :
    cancelledIn (m.createHandle name).2.2 = [] := by
  cases opened : m.queueOpen with
  | false => rw [createHandle_of_closed opened]; rfl
  | true =>
    cases taken : m.registry.active.lookup name with
    | none => rw [createHandle_of_free opened taken]; rfl
    | some id => rw [createHandle_of_taken opened (by simp [taken])]; rfl

theorem cancelledIn_releaseHandle (m : Manager) (id : Nat) : cancelledIn (m.releaseHandle id).2 = [] := by
  rcases m.releaseHandle_cases id with eq | ⟨h, _, _, _, eq⟩ <;> rw [eq]
  · rfl
  · unfold unregister
    split
    · exact cancelledIn_send _ _
    · rfl

theorem cancelledIn_stop (m : Manager) : cancelledIn m.stop.2 = [] := by
  by_cases running : m.lifecycle = .running <;> simp [stop, running, cancelledIn, Note.cancelled?]

theorem cancelledIn_finishStart (m : Manager) (label : String) (id : Nat) :
    cancelledIn (m.finishStart label id).2 = [] := by
  unfold finishStart
  split <;> rfl

/-- A manager gives up what its worker waits for, and nothing else. -/
theorem Move.cancelled (move : m.Move s store m' b notes) {request : Request}
    (given : request ∈ cancelledIn notes) :
    ∃ k call, m.worker = some k ∧ k.call? = some call ∧ call.request = request := by
  have nothing {notes : List Note} (silent : cancelledIn notes = []) (given : request ∈ cancelledIn notes) :
      ∃ k call, m.worker = some k ∧ k.call? = some call ∧ call.request = request := by
    simp [silent] at given
  have called (c : Call) (caller : Caller) {rest : List Note} (silent : cancelledIn rest = []) :
      cancelledIn ((c.finish caller s.trueTime store).2.2 ++ rest) = [] := by
    rw [cancelledIn_append, cancelledIn_finish, silent]
    rfl
  cases move with
  | create name => exact nothing (m.cancelledIn_createHandle name) given
  | release id => exact nothing (m.cancelledIn_releaseHandle id) given
  | stop => exact nothing m.cancelledIn_stop given
  | abandon | beginStart | beginListing | request | retire | pace | refuse | enter | askListing
    | reapScheduler => exact nothing rfl given
  | @worker k r present move =>
    obtain ⟨call, called, same⟩ := move.cancelled given
    exact ⟨k, call, present, called, same⟩
  | enterAlone idle disabled => exact nothing (cancelledIn_finishStart _ _ _) given
  | fail present called' due e fields eq =>
    refine nothing (called _ _ ?_) given
    rcases eq with rfl | rfl <;> rfl
  | crash | compare | endListing => exact nothing (called _ _ rfl) given
  | finish present preparing due answered =>
    exact nothing (called _ _ (m.cancelledIn_finishStart _ _)) given
  | @reapWorker k present aborted =>
    cases called : k.call? with
    | none => simp [cancelledIn, reap, present, called] at given
    | some call =>
      refine ⟨k, call, present, called, ?_⟩
      simpa [cancelledIn, reap, present, called, Note.cancelled?, eq_comm] using given

end Manager

/-! ## Which stores outlive a call -/

theorem Backend.outlives_perform (b : Backend) (now : Int) (r : Request) :
    (b.perform now r).2.outlives = b.outlives := by
  cases b <;> rfl

theorem Call.outlives_finish (c : Call) (caller : Caller) (trueTime : Int) (store : Backend) :
    (c.finish caller trueTime store).2.1.outlives = store.outlives := by
  unfold Call.finish
  cases c.fate with
  | refuse => rfl
  | answer | lose => exact store.outlives_perform _ _

theorem Manager.Move.outlives {m m' : Manager} {s : Surroundings} {store b : Backend} {notes : List Note}
    (move : m.Move s store m' b notes) : b.outlives = store.outlives := by
  rcases move.work_cases with ⟨w, r, present, step, _, rfl, _⟩ | aside
  · generalize m.queue = queue at step
    cases step.account with
    | took | began | other => rfl
    | ended called due plain => exact Call.outlives_finish _ _ _ _
  · rcases aside.store with rfl | ⟨call, caller, _, _, rfl⟩
    · rfl
    · exact call.outlives_finish caller s.trueTime store

/-! ## Where they come from -/

namespace World

variable {start w w' : World} {a : Action} {stray : Stray}

theorem mem_strays_iff {i : Nat} {notes : List Note} :
    stray ∈ strays (some i) notes ↔ stray.participant = i ∧ stray.request ∈ cancelledIn notes := by
  obtain ⟨participant, request⟩ := stray
  simp only [strays, Option.toList_some, List.flatMap_cons, List.flatMap_nil, List.append_nil, List.mem_map,
    cancelledIn, Stray.mk.injEq]
  grind

/-- A call that is carried out late does to the rows of its store what it asks for, or nothing. -/
theorem Landed.write_cases {place : Nat} {p : Participant} {b b₀ b₁ : Backend} {n : Nat}
    (landed : w.Landed place stray p b w') (keyed : b.Keyed) (before : w.stores[n]? = some b₀)
    (after : w'.stores[n]? = some b₁) :
    b₁.held = b₀.held ∨ p.store = n ∧ b₁.held = stray.request.effect b₀.held := by
  have stores : w'.stores = w.stores.set p.store (b.perform w.trueTime stray.request).2 := by
    rw [landed.eq]
    rfl
  rw [stores, List.getElem?_set] at after
  by_cases own : p.store = n
  · subst own
    obtain rfl := Option.some.inj (landed.found.symm.trans before)
    rw [if_pos rfl, if_pos (List.getElem?_eq_some_iff.mp before).1] at after
    cases after
    cases result : (b.perform w.trueTime stray.request).1 with
    | ok reply => exact .inr ⟨rfl, Backend.held_perform keyed result⟩
    | error e => exact .inl (by rw [Backend.perform_error result])
  · rw [if_neg own, before] at after
    cases after
    exact .inl rfl

theorem Change.adrift_cases (change : w.Change a w') (member : stray ∈ w'.adrift) :
    stray ∈ w.adrift ∨ ∃ p k call, w.participants[stray.participant]? = some p
      ∧ p.manager.worker = some k ∧ k.call? = some call ∧ call.request = stray.request := by
  cases change with
  | move moved =>
    rw [moved.adrift] at member
    refine (List.mem_append.mp member).imp_right fun new => ?_
    obtain ⟨rfl, given⟩ := mem_strays_iff.mp new
    obtain ⟨k, call, worker, called, same⟩ := moved.move.cancelled given
    exact ⟨_, k, call, moved.present, worker, called, same⟩
  | rest same => exact .inl (same.adrift ▸ member)
  | tick | setLink | setClock => exact .inl member
  | use store request =>
    unfold World.use at member
    split at member
    · exact .inl member
    · exact .inl (by simpa [note, strays, setStore] using member)
  | @land place _ p b _ landed =>
    rw [landed.eq] at member
    have member : stray ∈ w.adrift.eraseIdx place := by simpa [World.landed, note, strays, setStore] using member
    exact .inl (List.mem_of_mem_eraseIdx member)

theorem Begins.adrift_nil (begins : start.Begins) : start.adrift = [] := by
  induction begins with
  | initial epoch stores => rfl
  | join begins owner settings store clock ih =>
    unfold World.join
    split <;> exact ih

/-- At this moment of a run, a worker waits for the call that is adrift later. -/
structure Origin (start : World) (stray : Stray) (before : List Action) (v : World) (p : Participant)
    (k : Worker) (call : Call) : Prop where
  run : start.run? before = some v
  present : v.participants[stray.participant]? = some p
  worker : p.manager.worker = some k
  called : k.call? = some call
  request : call.request = stray.request

/-- Every call that is adrift has been what a worker was waiting for. -/
theorem Begins.origin (begins : start.Begins) {actions : List Action} (run : start.run? actions = some w)
    (member : stray ∈ w.adrift) : ∃ before after v p k call,
      actions = before ++ after ∧ start.Origin stray before v p k call := by
  induction actions using List.reverseRecOn generalizing w with
  | nil =>
    cases run
    simp [begins.adrift_nil] at member
  | append_singleton actions a ih =>
    rw [run?_append] at run
    obtain ⟨v, first, last⟩ := Option.bind_eq_some_iff.mp run
    have act : v.act? a = some w := by simpa [run?] using last
    rcases (change_of_act? act).adrift_cases member with old | ⟨p, k, call, present, worker, called, same⟩
    · obtain ⟨before, after, rest⟩ := ih first old
      obtain ⟨u, p, k, call, rfl, origin⟩ := rest
      exact ⟨before, after ++ [a], u, p, k, call, by simp, origin⟩
    · exact ⟨actions, [a], v, p, k, call, rfl, first, present, worker, called, same⟩

end World

end Leasehold
