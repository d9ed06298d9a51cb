import Leasehold.Proofs.Chronicle
import Leasehold.Proofs.Exclusion
import Leasehold.Proofs.Pacing

/-! # When cycles began

What a cycle collects and what it writes is settled by the clock when it begins. No world remembers
that moment once the cycle has asked its first question: `World.cycleStart` reads it off a run.
`Worker.Dated` says that a cycle asks nothing but what follows from it.
-/

namespace Leasehold

/-- Whether a note says that a cycle begins. -/
def Note.beginsCycle : Note → Bool
  | cycleBegan => true
  | _ => false

theorem began_of_begins {notes : List Note} (begins : notes.any Note.beginsCycle = true) :
    .cycleBegan ∈ notes := by
  obtain ⟨n, member, tells⟩ := List.any_eq_true.mp begins
  cases n with
  | cycleBegan => exact member
  | _ => cases tells

/-- Requests of a worker that follow from its owner id and from the start of its latest cycle. -/
def Request.DatedBy (owner : String) (lease : Int) (latest : Option Int) : Request → Prop
  | .deleteExpired now => latest = some now
  | .refreshOwned o expiration | .claimAbsent _ o expiration =>
    o = owner ∧ ∃ start, latest = some start ∧ expiration = Reading.add start lease
  | .selectOwned o | .deleteOwned _ o => o = owner
  | .referenceTime | .ensureSchema | .dropSchema | .listAll => False

theorem begins_of_aloof {notes : List Note} (aloof : Aloof notes) :
    notes.any Note.beginsCycle = false := by
  rw [List.any_eq_false]
  intro n member begins
  cases n with
  | cycleBegan =>
    obtain ⟨c, eq⟩ := aloof _ member rfl
    cases eq
  | _ => cases begins

theorem begins_of_plain {notes : List Note} (plain : Plain notes) :
    notes.any Note.beginsCycle = false := by
  rw [List.any_eq_false]
  intro n member begins
  cases n with
  | cycleBegan => cases plain _ member
  | _ => cases begins

theorem begins_finish (c : Call) (caller : Caller) (trueTime : Int) (store : Backend) :
    (c.finish caller trueTime store).2.2.any Note.beginsCycle = false := by
  rw [List.any_eq_false]
  intro n member
  rcases Call.mem_finish member with rfl | ⟨_, rfl⟩ | ⟨_, rfl⟩ | ⟨_, _, _, rfl⟩ <;>
    simp [Note.beginsCycle]

namespace Worker

variable {w : Worker} {s : Surroundings} {queue : List Command} {store : Backend} {r : WorkerStep}

/-- The next question of a cycle leaves its expiration and its deadline alone, and is not about the
    time at which the cycle began. -/
theorem resume_asks {c c' : Cycle} {reply : Reply}
    (cycling : (w.resume s c reply).1.activity = .cycling c') :
    c'.expiration = c.expiration ∧ c'.deadline = c.deadline ∧ ∀ start, c'.Asks s.owner start := by
  have purged (w : Worker) {names : List String}
      (cycling : (w.purge s c names).1.activity = .cycling c') :
      c'.expiration = c.expiration ∧ c'.deadline = c.deadline ∧ ∀ start, c'.Asks s.owner start := by
    cases names with
    | nil => cases cycling
    | cons name rest =>
      cases cycling
      exact ⟨rfl, rfl, fun _ => rfl⟩
  unfold resume at cycling
  split at cycling
  · cases cycling
    exact ⟨rfl, rfl, fun _ => rfl⟩
  · dsimp only at cycling
    split at cycling <;> cases cycling
    · exact ⟨rfl, rfl, fun _ => rfl⟩
    · exact ⟨rfl, rfl, fun _ => ⟨_, rfl⟩⟩
  · cases cycling
    exact ⟨rfl, rfl, fun _ => rfl⟩
  · exact purged _ cycling
  · exact purged _ cycling

/-- A step begins a cycle and says so, or it goes on with the cycle that there is. -/
theorem Move.start_cases (move : w.Move s queue store r) :
    r.notes.any Note.beginsCycle = true ∧ (∃ tickets, r.worker = (w.beginCycle s tickets).1)
      ∨ r.notes.any Note.beginsCycle = false ∧ ∀ c', r.worker.activity = .cycling c' →
        ∃ c, w.activity = .cycling c ∧ c'.expiration = c.expiration ∧ c'.deadline = c.deadline
          ∧ ∀ start, c'.Asks s.owner start := by
  have silent (called : List Note) {notes : List Note} (plain : Plain notes)
      (quiet : called.any Note.beginsCycle = false) :
      (called ++ notes).any Note.beginsCycle = false := by
    rw [List.any_append, quiet, begins_of_plain plain]
    rfl
  cases move with
  | @take c _ _ b listening =>
    refine .inr ⟨silent [.applied c] (remarks_apply c b).plain rfl, fun c' cycling => ?_⟩
    rcases w.apply_activity c b with ⟨eq, _⟩ | ⟨⟨name, eq, _⟩, _⟩ | ⟨ticket, _, eq⟩
    · exact absurd (eq.symm.trans cycling) (afterCommand_ne_cycling b c')
    · cases eq.symm.trans cycling
    · cases eq.symm.trans cycling
  | @beginCycle _ b draining => exact .inl ⟨rfl, b.tickets, rfl⟩
  | beginRelease parting => exact .inr ⟨rfl, fun c' cycling => by cases cycling⟩
  | @endRelease _ _ r releasing due =>
    refine .inr ⟨silent _ (remarks_endRelease _ _).plain (begins_finish _ _ _ _), fun c' cycling => ?_⟩
    exact absurd cycling (afterCommand_ne_cycling r.batch c')
  | @abandonRelease _ _ r releasing pending late =>
    refine .inr ⟨silent [_, _] remarks_giveUp.plain rfl, fun c' cycling => ?_⟩
    exact absurd cycling (afterCommand_ne_cycling r.batch c')
  | @resume _ _ c reply cycling due answered =>
    refine .inr ⟨silent _ (plain_resume c reply) (begins_finish _ _ _ _), fun c' cycling' => ?_⟩
    exact ⟨c, cycling, resume_asks cycling'⟩
  | failCycle cycling due failed =>
    exact .inr ⟨silent _ (plain_failCycle _ _ _) (begins_finish _ _ _ _), fun c' is => by cases is⟩
  | overrun cycling pending late =>
    exact .inr ⟨silent [_] (plain_failCycle _ _ _) rfl, fun c' is => by cases is⟩

/-- A worker asks for what follows from its owner id and from the start of its latest cycle. -/
structure Dated (owner : String) (lease : Int) (latest : Option Int) (w : Worker) : Prop where
  releasing : ∀ r, w.activity = .releasing r → r.call.request = .deleteOwned r.name owner
  cycling : ∀ c, w.activity = .cycling c → ∃ start, latest = some start
    ∧ c.expiration = Reading.add start lease ∧ c.Asks owner start

theorem dated_fresh (owner : String) (lease : Int) (latest : Option Int) (aborted : Bool) :
    ({ fresh with aborted } : Worker).Dated owner lease latest := by
  constructor <;> simp [fresh]

theorem Move.releasing_asks (move : w.Move s queue store r) {c : Releasing}
    (releasing : r.worker.activity = .releasing c) : c.call.request = .deleteOwned c.name s.owner := by
  have idle {b : Batch} (is : afterCommand b = .releasing c) : False := by
    rcases idle_afterCommand b with eq | ⟨_, eq⟩ <;> cases eq.symm.trans is
  cases move with
  | @take c _ _ b listening =>
    rcases w.apply_activity c b with ⟨eq, _⟩ | ⟨⟨name, eq, _⟩, _⟩ | ⟨ticket, _, eq⟩
    · exact (idle (eq.symm.trans releasing)).elim
    · cases eq.symm.trans releasing
    · cases eq.symm.trans releasing
  | beginCycle draining => cases releasing
  | beginRelease parting =>
    cases releasing
    rfl
  | endRelease | abandonRelease => exact (idle releasing).elim
  | @resume _ _ c reply cycling due answered =>
    rcases w.resume_cases s c reply with ⟨_, _, cycling₁⟩ | ⟨waiting, _⟩
    · cases cycling₁.symm.trans releasing
    · cases waiting.symm.trans releasing
  | failCycle | overrun => cases releasing

theorem Dated.move {latest : Option Int} (h : w.Dated s.owner s.settings.leaseMillis latest)
    (move : w.Move s queue store r) : r.worker.Dated s.owner s.settings.leaseMillis
      (if r.notes.any Note.beginsCycle then some s.clock else latest) := by
  refine ⟨fun c releasing => move.releasing_asks releasing, fun c' cycling' => ?_⟩
  rcases move.start_cases with ⟨begins, tickets, eq⟩ | ⟨silent, goesOn⟩
  · rw [eq] at cycling'
    cases cycling'
    exact ⟨s.clock, if_pos begins, rfl, rfl⟩
  · obtain ⟨c, cycling, expiration, _, asks⟩ := goesOn c' cycling'
    obtain ⟨start, known, written, _⟩ := h.cycling c cycling
    refine ⟨start, ?_, expiration.trans written, asks start⟩
    rw [silent]
    exact known

/-- Whatever a dated worker waits for follows from the start of its cycle. -/
theorem Dated.request {owner : String} {lease : Int} {latest : Option Int}
    (h : w.Dated owner lease latest) {call : Call} (called : w.call? = some call) :
    call.request.DatedBy owner lease latest := by
  cases activity : w.activity with
  | releasing r =>
    obtain rfl : r.call = call := by simpa [call?, activity] using called
    rw [h.releasing r activity]
    rfl
  | cycling c =>
    obtain rfl : c.call = call := by simpa [call?, activity] using called
    obtain ⟨start, known, written, asks⟩ := h.cycling c activity
    unfold Cycle.Asks at asks
    split at asks
    · rw [asks]
      exact known
    · rw [asks]
      exact ⟨rfl, start, known, written⟩
    · obtain ⟨names, asks⟩ := asks
      rw [asks]
      exact ⟨rfl, start, known, written⟩
    · rw [asks]
      rfl
    · rw [asks]
      rfl
  | waiting | draining | parting => simp [call?, activity] at called

end Worker

namespace World

variable {w w' : World} {i : Nat} {p p' : Participant}

/-- What has happened to a participant since an earlier world. -/
def newsOf (w w' : World) (i : Nat) : List Note := (w'.notesOf i).drop (w.notesOf i).length

theorem Moved.news {m : Manager} {b : Backend} {notes : List Note} (moved : w.Moved i p m b notes w')
    (j : Nat) : w.newsOf w' j = if i = j then notes else [] := by
  rw [newsOf, notesOf_of_lines moved.journal, List.drop_left]

theorem Change.notesOf_eq {a : Action} (change : w.Change a w') (i : Nat) :
    w'.notesOf i = w.notesOf i ++ w.newsOf w' i := by
  have grown {notes : List Note} (past : w'.notesOf i = w.notesOf i ++ notes) :
      w'.notesOf i = w.notesOf i ++ w.newsOf w' i := by
    rw [newsOf, past, List.drop_left]
  have still (past : w'.notesOf i = w.notesOf i) : w'.notesOf i = w.notesOf i ++ w.newsOf w' i := by
    have more : w'.notesOf i = w.notesOf i ++ [] := by rw [past, List.append_nil]
    exact grown more
  cases change with
  | move moved => exact grown (notesOf_of_lines moved.journal i)
  | rest same => exact still (notesOf_of_journal same.journal i)
  | tick | setLink | setClock => exact still rfl
  | use store request => exact still (w.notesOf_use store request i)
  | land landed => exact still (landed.notesOf_eq i)

theorem past_of_run {actions : List Action} (run : w.run? actions = some w') (i : Nat) :
    w.notesOf i <+: w'.notesOf i := by
  have step (v : World) (a : Action) (v' : World) (before : w.notesOf i <+: v.notesOf i) (_ : True)
      (change : v.Change a v') : w.notesOf i <+: v'.notesOf i :=
    change.notesOf_eq i ▸ before.trans (List.prefix_append _ _)
  exact run?_preserves step (fun _ _ => trivial) run List.prefix_rfl

theorem frame_of_run {actions : List Action} (run : w.run? actions = some w')
    (present : w.participants[i]? = some p) (present' : w'.participants[i]? = some p') :
    p'.manager.owner = p.manager.owner ∧ p'.manager.settings = p.manager.settings := by
  refine run?_keeps_past (i := i)
    (P := fun m _ => m.owner = p.manager.owner ∧ m.settings = p.manager.settings) ?_ run ?_ present'
  · rintro m s store m' b past notes ⟨owner, settings⟩ move
    obtain ⟨owner', settings'⟩ := move.frame
    exact ⟨owner'.trans owner, settings'.trans settings⟩
  · intro q there
    obtain rfl := Option.some.inj (present.symm.trans there)
    exact ⟨rfl, rfl⟩

theorem newsOf_append {v : World} (past : w.notesOf i = v.notesOf i ++ v.newsOf w i)
    (more : w'.notesOf i = w.notesOf i ++ w.newsOf w' i) :
    v.newsOf w' i = v.newsOf w i ++ w.newsOf w' i := by
  rw [newsOf, more, past, List.append_assoc, List.drop_left]

theorem Change.news_cases {a : Action} (change : w.Change a w')
    (present' : w'.participants[i]? = some p') : ∃ p, w.participants[i]? = some p
      ∧ (p'.manager = p.manager ∧ w.newsOf w' i = []
        ∨ ∃ b, p.manager.Move (w.surroundings p) (w.storeOf p) p'.manager b (w.newsOf w' i)) := by
  obtain ⟨p, present, ⟨same, past⟩ | ⟨b, notes, move, past⟩⟩ := change.past_cases present'
  · refine ⟨p, present, .inl ⟨same, ?_⟩⟩
    rw [newsOf, past, List.drop_length]
  · refine ⟨p, present, .inr ⟨b, ?_⟩⟩
    rw [newsOf, past, List.drop_left]
    exact move

/-- What the clock of a participant shows. -/
def clockOf (w : World) (i : Nat) : Option Int :=
  w.participants[i]?.map fun p => p.clock.reading w.trueTime

/-- The start of the latest cycle after a change, given what it was before. -/
def startAfter (w w' : World) (i : Nat) (latest : Option Int) : Option Int :=
  if (w.newsOf w' i).any Note.beginsCycle then w.clockOf i else latest

theorem startAfter_of_still {latest : Option Int} (past : w'.notesOf i = w.notesOf i) :
    w.startAfter w' i latest = latest := by
  rw [startAfter, newsOf, past, List.drop_length]
  rfl

def startFrom (i : Nat) (w : World) (latest : Option Int) : List Action → Option Int
  | [] => latest
  | a :: actions =>
    match w.act? a with
    | none => latest
    | some next => next.startFrom i (w.startAfter next i latest) actions

/-- What the clock of a participant showed when the latest cycle of its manager began in this run. -/
def cycleStart (w : World) (i : Nat) (actions : List Action) : Option Int := w.startFrom i none actions

theorem run?_keeps_start {P : World → Option Int → Prop} {allowed : Action → Prop}
    (step : ∀ v a v' latest, P v latest → allowed a → v.Change a v' →
      P v' (v.startAfter v' i latest))
    {actions : List Action} (calm : ∀ a ∈ actions, allowed a) (run : w.run? actions = some w')
    {latest : Option Int} (start : P w latest) : P w' (w.startFrom i latest actions) := by
  induction actions generalizing w latest with
  | nil =>
    cases run
    exact start
  | cons a actions ih =>
    obtain ⟨next, act, run⟩ := Option.bind_eq_some_iff.mp run
    rw [startFrom, act]
    exact ih (fun b member => calm b (List.mem_cons_of_mem _ member)) run
      (step w a next latest start (calm a List.mem_cons_self) (change_of_act? act))

/-- The worker of a participant asks for what follows from the start of its latest cycle. -/
def Dated (w : World) (i : Nat) (latest : Option Int) : Prop :=
  ∀ p, w.participants[i]? = some p → ∀ k, p.manager.worker = some k →
    k.Dated p.manager.owner p.manager.settings.leaseMillis latest

theorem Dated.change {latest : Option Int} (h : w.Dated i latest) {a : Action}
    (change : w.Change a w') : w'.Dated i (w.startAfter w' i latest) := by
  intro p' present' k there
  obtain ⟨p, present, ⟨same, silent⟩ | ⟨b, move⟩⟩ := change.news_cases present'
  · rw [startAfter, silent, same]
    exact h p present k (same ▸ there)
  · obtain ⟨owner, settings⟩ := move.frame
    have clock : w.clockOf i = some (w.surroundings p).clock := by simp [clockOf, present, surroundings]
    rw [owner, settings, startAfter, clock]
    rcases move.work_cases with ⟨k₀, r, present₀, step, eq, _, noted⟩ | aside
    · rw [noted]
      rw [eq, Manager.publishAll_eq] at there
      cases there
      exact Worker.Dated.move (s := w.surroundings p) (h p present k₀ present₀) step
    · rw [begins_of_aloof aside.aloof]
      obtain ⟨k₀, aborted, origin, rfl⟩ := aside.worker k there
      rcases origin with present₀ | rfl
      · have before := h p present k₀ present₀
        exact ⟨before.releasing, before.cycling⟩
      · exact Worker.dated_fresh _ _ _ aborted

theorem Begins.dated {start : World} (begins : start.Begins) {actions : List Action}
    (run : start.run? actions = some w) : w.Dated i (start.cycleStart i actions) := by
  refine run?_keeps_start (P := fun v latest => v.Dated i latest)
    (fun v a v' latest h (_ : True) change => h.change change) (fun _ _ => trivial) run ?_
  intro p present k there
  obtain ⟨owner, settings, eq⟩ := begins.manager_fresh (List.mem_of_getElem? present)
  rw [eq] at there
  cases there

end World

end Leasehold
