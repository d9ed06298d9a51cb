import Leasehold.Proofs.Pacing

/-! # The course of a maintenance cycle

`Worker.Course` follows one cycle from its beginning, through any number of questions to the store, while
commands arrive and others may use the store between two steps. Until the store has told what is owned,
nothing of the worker changes; then everything is brought in line at once, and from there on nothing
changes any more (`Worker.Course.underway`). So a failure finds one of two states, and leaves it as it is
or gives up all that is held.
-/

namespace Leasehold

/-! ## What a lease is told -/

/-- Whether a note is an event for the lease of this name. -/
def Note.isAbout (name : String) : Note → Bool
  | event n _ _ => n = name
  | _ => false

/-- The events for a lease among some notes, in order. -/
def eventsAbout (name : String) (notes : List Note) : List Note := notes.filter (Note.isAbout name)

theorem eventsAbout_append (name : String) (notes notes' : List Note) :
    eventsAbout name (notes ++ notes') = eventsAbout name notes ++ eventsAbout name notes' :=
  List.filter_append notes notes'

theorem eventsAbout_of_quiet {notes : List Note} (quiet : eventsIn notes = []) (name : String) :
    eventsAbout name notes = [] := by
  rw [eventsAbout, List.filter_eq_nil_iff]
  intro n member about
  cases n with
  | event n id acquired =>
    have told : (id, acquired) ∈ eventsIn notes := List.mem_filterMap.mpr ⟨_, member, rfl⟩
    rw [quiet] at told
    cases told
  | _ => cases about

namespace Slots

variable {slots : Slots}

/-- What the slot of a name is told when slots change: its new flag, if that differs from the old one. -/
def announced (before after : Slots) (name : String) : List Note :=
  match before.find? name, after.find? name with
  | some old, some new =>
    if old.acquired = new.acquired then [] else [.event name old.id new.acquired]
  | _, _ => []

theorem announced_self (slots : Slots) (name : String) : slots.announced slots name = [] := by
  unfold announced
  cases slots.find? name <;> simp

theorem filter_name (keyed : slots.Keyed) (name : String) :
    (slots.filter fun c => c.1 = name) = (slots.find? name).toList.map fun slot => (name, slot) := by
  induction slots with
  | nil => rfl
  | cons first rest ih =>
    obtain ⟨other, slot⟩ := first
    have apart : other ∉ (ledger rest).map (·.1) ∧ Keyed rest := by
      simpa [Keyed, ledger] using keyed
    by_cases same : other = name
    · subst same
      have gone : find? rest other = none := by
        rw [← Option.not_isSome_iff_eq_none, find?, Keyed.lookup_isSome_iff]
        simpa [ledger] using apart.1
      have nothing : (rest.filter fun c => c.1 = other) = [] := by
        rw [ih apart.2, gone]
        rfl
      simp [nothing, find?]
    · have passed : find? ((other, slot) :: rest) name = find? rest name := by
        have ne : (name == other) = false := by simpa using Ne.symm same
        simp [find?, List.lookup_cons, ne]
      rw [passed, ← ih apart.2]
      simp [same]

theorem eventsAbout_eventsOf (keyed : slots.Keyed) (p : String × Slot → Bool) (flag : Bool)
    (name : String) : eventsAbout name (Worker.eventsOf (slots.filter p) flag)
      = ((slots.find? name).toList.filter fun slot => p (name, slot)).map fun slot =>
          .event name slot.id flag := by
  have only : eventsAbout name (Worker.eventsOf (slots.filter p) flag)
      = Worker.eventsOf ((slots.filter fun c => c.1 = name).filter p) flag := by
    rw [eventsAbout, Worker.eventsOf, List.filter_map, Worker.eventsOf, List.filter_filter,
      List.filter_filter]
    congr 2
    funext c
    exact Bool.and_comm _ _
  rw [only, filter_name keyed]
  cases slots.find? name with
  | none => rfl
  | some slot => cases pass : p (name, slot) <;> simp [Worker.eventsOf, pass]

theorem announced_assign (keyed : slots.Keyed) (f : String → Bool) (name : String) :
    slots.announced (slots.assign f) name
      = eventsAbout name (Worker.eventsOf ((slots.changing f).filter fun c => !c.2.acquired) true)
        ++ eventsAbout name (Worker.eventsOf ((slots.changing f).filter fun c => c.2.acquired) false) := by
  rw [changing, List.filter_filter, List.filter_filter, eventsAbout_eventsOf keyed,
    eventsAbout_eventsOf keyed, announced, find?_assign]
  cases slots.find? name with
  | none => rfl
  | some slot => cases old : slot.acquired <;> cases new : f name <;> simp [old, new]

end Slots

namespace Worker

variable {w w₀ : Worker} {s s₀ : Surroundings} {store store₀ : Backend}

theorem eventsAbout_reconcile (keyed : w.slots.Keyed) (owned : List String) (expiration : Int)
    (name : String) : eventsAbout name (w.reconcile s owned expiration).2
      = w.slots.announced (w.slots.assign owned.contains) name := by
  have logs (slots : Slots) (what : String) : eventsAbout name (slots.map fun c =>
      .log .info what [("lease", c.1), ("owner", s.owner)]) = [] :=
    eventsAbout_of_quiet (eventsIn_logs slots _ fun _ => rfl) name
  simp only [reconcile, eventsAbout_append, logs, List.append_nil]
  exact (Slots.announced_assign keyed _ name).symm

theorem eventsAbout_giveUp (keyed : w.slots.Keyed) (s : Surroundings) (name : String) :
    eventsAbout name (w.giveUp s).2 = w.slots.announced (w.giveUp s).1.slots name := by
  cases due : w.mustGiveUp s with
  | false => rw [giveUp_of_safe due, Slots.announced_self]; rfl
  | true =>
    have gained : (w.slots.changing fun _ => false).filter (fun c => !c.2.acquired) = [] := by
      simp [Slots.changing]
    have lost : (w.slots.changing fun _ => false).filter (fun c => c.2.acquired)
        = w.slots.changing fun _ => false := by
      simp [Slots.changing]
    have logs : eventsAbout name ((w.slots.changing fun _ => false).map fun c =>
        .log .warn "Lost lease: store unreachable past its expiration"
          [("lease", c.1), ("owner", s.owner)]) = [] :=
      eventsAbout_of_quiet (eventsIn_logs _ _ fun _ => rfl) name
    rw [giveUp_of_due due, Slots.announced_assign keyed, gained, lost]
    simp only [giveUp, due, if_true, eventsAbout_append, logs, List.append_nil]
    rfl

end Worker

/-! ## What a cycle learns -/

/-- The names that the store tells to be owned, if that is what it tells. -/
def Note.owned? : Note → Option (List String)
  | answered .worker (.selectOwned _) reply => some reply.nameList
  | _ => none

/-- The names that the store has told to be owned, if it has told them. -/
def ownedIn (notes : List Note) : Option (List String) := notes.findSome? Note.owned?

theorem ownedIn_append (notes notes' : List Note) :
    ownedIn (notes ++ notes') = (ownedIn notes).or (ownedIn notes') := List.findSome?_append

section Answers

variable {c : Call} {trueTime : Int} {store : Backend}

theorem eventsAbout_finish (name : String) :
    eventsAbout name (c.finish .worker trueTime store).2.2 = [] :=
  eventsAbout_of_quiet (Worker.eventsIn_finish c .worker trueTime store) name

theorem goesOn_finish (succeeded : Bool) :
    .cycleEnded succeeded ∉ (c.finish .worker trueTime store).2.2 := by
  intro member
  rcases Call.mem_finish member with eq | ⟨_, eq⟩ | ⟨_, eq⟩ | ⟨_, _, _, eq⟩ <;> cases eq

theorem ownedIn_finish {reply : Reply} {owner : String}
    (answered : (c.finish .worker trueTime store).1 = .ok reply) (asks : c.request = .selectOwned owner) :
    ownedIn (c.finish .worker trueTime store).2.2 = some reply.nameList := by
  obtain ⟨_, _, noted⟩ := Call.finish_ok answered
  rw [noted, asks]
  cases store <;> rfl

theorem ownedIn_finish_of_other (other : ∀ owner, c.request ≠ .selectOwned owner) :
    ownedIn (c.finish .worker trueTime store).2.2 = none := by
  rw [ownedIn, List.findSome?_eq_none_iff]
  intro n member
  rcases Call.mem_finish member with rfl | ⟨reply, rfl⟩ | ⟨_, rfl⟩ | ⟨_, _, _, rfl⟩
  · rfl
  · cases asked : c.request with
    | selectOwned owner => exact absurd asked (other owner)
    | _ => rfl
  · rfl
  · rfl

end Answers

/-- What a worker has learned when it knows, or does not know yet, what is owned. -/
def Worker.learn (w : Worker) (expiration : Int) : Option (List String) → Worker
  | none => w
  | some owned => { w with slots := w.slots.assign owned.contains, confirmedUntil := some expiration }

/-! ## A cycle that is under way -/

/-- A cycle fails at this moment: its call ends in an error, whether or not it has taken effect, or the
    time of the cycle is over while it waits. -/
def Cycle.Breaks (c : Cycle) (s : Surroundings) (store : Backend) : Prop :=
  (c.call.isDue s.now = true ∧ ∃ e, (c.call.finish .worker s.trueTime store).1 = .error e)
    ∨ c.call.isDue s.now = false ∧ c.deadline ≤ s.now

/-- The expiration that a cycle writes if it begins in these surroundings. -/
def Surroundings.written (s : Surroundings) : Int := Reading.add s.clock s.settings.leaseMillis

/-- What a cycle asks at each stage, by the slots and the clock that it began with. -/
def Stage.question (slots : Slots) (owner : String) (start expiration : Int) : Stage → Request
  | .collecting => .deleteExpired start
  | .refreshing => .refreshOwned owner expiration
  | .claiming => .claimAbsent slots.wanted owner expiration
  | .selecting => .selectOwned owner
  | .purging name _ => .deleteOwned name owner

namespace Worker

/-- The course of a cycle that a worker begins: what has become of the worker and the store, and what has
    happened so far. Between two steps time passes, commands arrive, and `others` may use the store. -/
inductive Course (others : Backend → Backend → Prop) (w₀ : Worker) (s₀ : Surroundings)
    (store₀ : Backend) : Worker → Backend → List Note → Prop where
  | begin {b r} (draining : w₀.activity = .draining b) (step : w₀.step s₀ [] store₀ = some r) :
      Course others w₀ s₀ store₀ r.worker r.store r.notes
  | next {w s queue store store' notes c r} (before : Course others w₀ s₀ store₀ w store notes)
      (cycling : w.activity = .cycling c) (meanwhile : others store store')
      (owner : s.owner = s₀.owner) (settings : s.settings = s₀.settings)
      (step : w.step s queue store' = some r) :
      Course others w₀ s₀ store₀ r.worker r.store (notes ++ r.notes)

variable {others : Backend → Backend → Prop} {w w₀ : Worker} {s s₀ : Surroundings} {queue : List Command}
  {store store' store₀ : Backend} {notes : List Note} {c c' : Cycle} {r : WorkerStep} {reply : Reply}

/-- A worker has learned what the store has told, and its leases have been told what that changes. -/
structure Follows (w₀ : Worker) (expiration : Int) (w : Worker) (notes : List Note) : Prop where
  worker : w = { w₀.learn expiration (ownedIn notes) with activity := w.activity }
  told : w₀.slots.Keyed → ∀ name, eventsAbout name notes = w₀.slots.announced w.slots name

/-- What is known while a cycle waits for the store. -/
structure Underway (w₀ : Worker) (s₀ : Surroundings) (c : Cycle) (w : Worker) (notes : List Note) :
    Prop where
  follows : w₀.Follows c.expiration w notes
  expiration : c.expiration = s₀.written
  asks : c.call.request = c.stage.question w₀.slots s₀.owner s₀.clock c.expiration
  unanswered : (∀ name rest, c.stage ≠ .purging name rest) → ownedIn notes = none
  goesOn : ∀ succeeded, .cycleEnded succeeded ∉ notes

theorem begin_eq {b : Batch} (draining : w₀.activity = .draining b)
    (step : w₀.step s₀ [] store₀ = some r) :
    r = ⟨(w₀.beginCycle s₀ b.tickets).1, [], store₀, (w₀.beginCycle s₀ b.tickets).2⟩ := by
  simp only [Worker.step, draining] at step
  exact (Option.some.inj step).symm

theorem underway_begin {b : Batch} (draining : w₀.activity = .draining b)
    (step : w₀.step s₀ [] store₀ = some r) (cycling : r.worker.activity = .cycling c) :
    w₀.Underway s₀ c r.worker r.notes := by
  rw [begin_eq draining step] at cycling ⊢
  cases cycling
  refine ⟨⟨rfl, fun _ name => ?_⟩, rfl, rfl, fun _ => rfl, by simp [beginCycle, ask]⟩
  exact (w₀.slots.announced_self name).symm

theorem ownedIn_of_plain (plain : Plain notes) : ownedIn notes = none := by
  rw [ownedIn, List.findSome?_eq_none_iff]
  intro n member
  have said := plain n member
  cases n with
  | answered => cases said
  | _ => rfl

theorem Underway.slots (h : w₀.Underway s₀ c w notes) (unanswered : ownedIn notes = none) :
    w.slots = w₀.slots := by
  rw [h.follows.worker, unanswered]
  rfl

theorem Underway.asks_otherwise (h : w₀.Underway s₀ c w notes) (other : c.stage ≠ .selecting)
    (owner : String) : c.call.request ≠ .selectOwned owner := by
  rw [h.asks]
  cases stage : c.stage with
  | selecting => exact absurd stage other
  | _ => simp [Stage.question]

/-- An answer is learned from if it tells what is owned, and changes nothing otherwise. -/
theorem Underway.learns (h : w₀.Underway s₀ c w notes)
    (answered : (c.call.finish .worker s.trueTime store).1 = .ok reply) :
    w₀.Follows c.expiration (w.resume s c reply).1
      (notes ++ ((c.call.finish .worker s.trueTime store).2.2 ++ (w.resume s c reply).2)) := by
  have silent : ownedIn (w.resume s c reply).2 = none := ownedIn_of_plain (plain_resume c reply)
  rcases w.resume_eq s c reply with ⟨other, activity, eq⟩ | ⟨selecting, activity, eq⟩
  · have learned : ownedIn (notes ++ ((c.call.finish .worker s.trueTime store).2.2
        ++ (w.resume s c reply).2)) = ownedIn notes := by
      simp [ownedIn_append, ownedIn_finish_of_other (h.asks_otherwise other), silent]
    constructor
    · rw [learned, eq, h.follows.worker]
    · intro keyed name
      rw [eventsAbout_append, eventsAbout_append, eventsAbout_finish,
        eventsAbout_of_quiet (eventsIn_resume other), eq]
      simpa using h.follows.told keyed name
  · have unanswered := h.unanswered (by simp [selecting])
    have asks : c.call.request = .selectOwned s₀.owner := by rw [h.asks, selecting]; rfl
    have learned : ownedIn (notes ++ ((c.call.finish .worker s.trueTime store).2.2
        ++ (w.resume s c reply).2)) = some reply.nameList := by
      simp [ownedIn_append, unanswered, silent, ownedIn_finish answered asks]
    have slots := h.slots unanswered
    constructor
    · rw [learned, eq, h.follows.worker, unanswered]
      rfl
    · intro keyed name
      have before := h.follows.told keyed name
      rw [slots, Slots.announced_self] at before
      rw [eventsAbout_append, before, eventsAbout_append, eventsAbout_finish,
        resume_of_selecting selecting, eventsAbout_append,
        eventsAbout_of_quiet (eventsIn_purge _ s c _), List.append_nil, eq,
        eventsAbout_reconcile (slots ▸ keyed), List.nil_append, List.nil_append]
      change _ = w₀.slots.announced (w.slots.assign reply.nameList.contains) name
      rw [slots]

theorem ended_purge {names : List String} {succeeded : Bool}
    (ended : .cycleEnded succeeded ∈ (w.purge s c names).2) : succeeded = true ∧ names = [] := by
  cases names with
  | nil =>
    simp only [purge, endCycle, acknowledge, List.mem_cons, List.mem_map, reduceCtorEq, and_false,
      exists_false, or_false, Note.cycleEnded.injEq] at ended
    exact ⟨ended, rfl⟩
  | cons name rest => simp [purge, askNext, ask] at ended

theorem ended_resume {succeeded : Bool} (ended : .cycleEnded succeeded ∈ (w.resume s c reply).2) :
    succeeded = true ∧ (w.resume s c reply).1.activity = .waiting := by
  cases stage : c.stage with
  | collecting =>
    simp only [resume, stage] at ended
    split at ended <;> simp [askNext, ask] at ended
  | refreshing =>
    simp only [resume, stage] at ended
    split at ended <;> simp [askNext, ask] at ended
  | claiming => simp [resume, stage, askNext, ask] at ended
  | selecting =>
    simp only [resume, stage] at ended ⊢
    rcases List.mem_append.mp ended with changes | more
    · simp [reconcile, eventsOf] at changes
    · obtain ⟨success, none⟩ := ended_purge more
      rw [none]
      exact ⟨success, rfl⟩
  | purging name rest =>
    simp only [resume, stage] at ended ⊢
    obtain ⟨success, none⟩ := ended_purge ended
    rw [none]
    exact ⟨success, rfl⟩

/-- A cycle that goes on after an answer asks its next question. -/
theorem resume_goesOn (cycling : (w.resume s c reply).1.activity = .cycling c') :
    c'.expiration = c.expiration
      ∧ (∀ start, c'.call.request = c'.stage.question w.slots s.owner start c.expiration)
      ∧ ((∀ name rest, c'.stage ≠ .purging name rest) →
        c.stage ≠ .selecting ∧ ∀ name rest, c.stage ≠ .purging name rest) := by
  have purged (w : Worker) {names : List String}
      (cycling : (w.purge s c names).1.activity = .cycling c') :
      c'.expiration = c.expiration
        ∧ (∀ slots start, c'.call.request = c'.stage.question slots s.owner start c.expiration)
        ∧ ∃ name rest, c'.stage = .purging name rest := by
    cases names with
    | nil => cases cycling
    | cons name rest =>
      cases cycling
      exact ⟨rfl, fun _ _ => rfl, name, rest, rfl⟩
  cases stage : c.stage with
  | collecting =>
    simp only [resume, stage] at cycling
    cases cycling
    exact ⟨rfl, fun _ => rfl, fun _ => ⟨by simp, by simp⟩⟩
  | refreshing =>
    simp only [resume, stage] at cycling
    by_cases none : w.slots.wanted.isEmpty = true
    · rw [if_pos none] at cycling
      cases cycling
      exact ⟨rfl, fun _ => rfl, fun _ => ⟨by simp, by simp⟩⟩
    · rw [if_neg none] at cycling
      cases cycling
      exact ⟨rfl, fun _ => rfl, fun _ => ⟨by simp, by simp⟩⟩
  | claiming =>
    simp only [resume, stage] at cycling
    cases cycling
    exact ⟨rfl, fun _ => rfl, fun _ => ⟨by simp, by simp⟩⟩
  | selecting =>
    simp only [resume, stage] at cycling
    obtain ⟨expiration, asks, name, rest, purging⟩ := purged _ cycling
    exact ⟨expiration, asks _, fun other => absurd purging (other name rest)⟩
  | purging name rest =>
    simp only [resume, stage] at cycling
    obtain ⟨expiration, asks, name', rest', purging⟩ := purged _ cycling
    exact ⟨expiration, asks _, fun other => absurd purging (other name' rest')⟩

/-- What is known of a cycle is known after each answer after which it goes on. -/
theorem Underway.next (h : w₀.Underway s₀ c w notes) (owner : s.owner = s₀.owner)
    (answered : (c.call.finish .worker s.trueTime store).1 = .ok reply)
    (cycling : (w.resume s c reply).1.activity = .cycling c') :
    w₀.Underway s₀ c' (w.resume s c reply).1
      (notes ++ ((c.call.finish .worker s.trueTime store).2.2 ++ (w.resume s c reply).2)) := by
  obtain ⟨expiration, asks, early⟩ := resume_goesOn cycling
  have silent : ownedIn (w.resume s c reply).2 = none := ownedIn_of_plain (plain_resume c reply)
  refine ⟨?_, expiration.trans h.expiration, ?_, fun other => ?_, fun succeeded member => ?_⟩
  · rw [expiration]
    exact h.learns answered
  · rw [asks s₀.clock, owner, expiration]
    -- Only a claim depends on the slots, and a claim comes before anything is learned.
    cases stage : c'.stage with
    | claiming =>
      obtain ⟨_, plain⟩ := early (by simp [stage])
      rw [h.slots (h.unanswered plain)]
    | _ => rfl
  · obtain ⟨asking, plain⟩ := early other
    simp [ownedIn_append, h.unanswered plain, ownedIn_finish_of_other (h.asks_otherwise asking), silent]
  · rcases List.mem_append.mp member with old | new
    · exact h.goesOn succeeded old
    · rcases List.mem_append.mp new with called | told
      · exact goesOn_finish succeeded called
      · have ended := (ended_resume told).2
        rw [cycling] at ended
        cases ended

theorem eventsAbout_failCycle (keyed : w.slots.Keyed) (label : String) (e : LeaseError) (name : String) :
    eventsAbout name (w.failCycle s label c e).2
      = w.slots.announced (w.failCycle s label c e).1.slots name := by
  have rest : eventsAbout name (.cycleEnded false :: acknowledge c.tickets) = [] := by
    simp [eventsAbout, acknowledge, Note.isAbout]
  have parts : (w.failCycle s label c e).2 = [.log .warn "Lease maintenance cycle failed"
      [("owner", s.owner), ("store", label), ("error", e.message)]]
        ++ ((w.giveUp s).2 ++ .cycleEnded false :: acknowledge c.tickets) := rfl
  rw [parts, eventsAbout_append, eventsAbout_append, rest, List.append_nil, eventsAbout_giveUp keyed]
  rfl

theorem ended_failCycle {label : String} {e : LeaseError} {succeeded : Bool}
    (ended : .cycleEnded succeeded ∈ (w.failCycle s label c e).2) : succeeded = false := by
  have silent : .cycleEnded succeeded ∉ (w.giveUp s).2 := by
    intro member
    cases remarks_giveUp _ member
  simpa [failCycle, silent, acknowledge] using ended

/-- A step of a cycle is an answer to its question, or the cycle fails. -/
theorem Move.cycle_step (move : w.Move s queue store r) (cycling : w.activity = .cycling c) :
    (∃ reply, (c.call.finish .worker s.trueTime store).1 = .ok reply
        ∧ r = ⟨(w.resume s c reply).1, queue, (c.call.finish .worker s.trueTime store).2.1,
          (c.call.finish .worker s.trueTime store).2.2 ++ (w.resume s c reply).2⟩)
      ∨ c.Breaks s store ∧ ∃ e called, (∀ name, eventsAbout name called = [])
        ∧ (∀ succeeded, .cycleEnded succeeded ∉ called)
        ∧ r.worker = (w.failCycle s store.label c e).1 ∧ r.queue = queue
        ∧ r.notes = called ++ (w.failCycle s store.label c e).2 := by
  have only {c' : Cycle} (cycling' : w.activity = .cycling c') : c' = c := by
    rw [cycling] at cycling'
    cases cycling'
    rfl
  cases move with
  | take listening => simp [batch?, cycling] at listening
  | beginCycle draining => simp [cycling] at draining
  | beginRelease parting => simp [cycling] at parting
  | endRelease releasing _ => simp [cycling] at releasing
  | abandonRelease releasing _ _ => simp [cycling] at releasing
  | resume cycling' due answered =>
    obtain rfl := only cycling'
    exact .inl ⟨_, answered, rfl⟩
  | failCycle cycling' due failed =>
    obtain rfl := only cycling'
    exact .inr ⟨.inl ⟨due, _, failed⟩, _, _, eventsAbout_finish, goesOn_finish, rfl, rfl, rfl⟩
  | overrun cycling' pending late =>
    obtain rfl := only cycling'
    exact .inr ⟨.inr ⟨pending, late⟩, _, [.cancelled .worker _], fun _ => rfl, by simp, rfl, rfl, rfl⟩

theorem Move.broken (move : w.Move s queue store r) (cycling : w.activity = .cycling c)
    (ended : .cycleEnded false ∈ r.notes) :
    c.Breaks s store ∧ ∃ e called, (∀ name, eventsAbout name called = [])
      ∧ r.worker = (w.failCycle s store.label c e).1 ∧ r.queue = queue
      ∧ r.notes = called ++ (w.failCycle s store.label c e).2 := by
  rcases move.cycle_step cycling with ⟨reply, _, rfl⟩ | ⟨breaks, e, called, quiet, _, rest⟩
  · rcases List.mem_append.mp ended with answered | told
    · exact absurd answered (goesOn_finish false)
    · cases (ended_resume told).1
  · exact ⟨breaks, e, called, quiet, rest⟩

theorem Course.underway (course : w₀.Course others s₀ store₀ w store notes)
    (cycling : w.activity = .cycling c) : w₀.Underway s₀ c w notes := by
  induction course generalizing c with
  | begin draining step => exact underway_begin draining step cycling
  | next before was meanwhile owner settings step ih =>
    rcases (move_of_step step).cycle_step was with ⟨reply, answered, rfl⟩ | ⟨_, _, _, _, _, worker, _, _⟩
    · exact (ih was).next owner answered cycling
    · rw [worker] at cycling
      cases cycling

theorem Course.follows (course : w₀.Course others s₀ store₀ w store notes)
    (well : .cycleEnded false ∉ notes) :
    w₀.Follows s₀.written w notes := by
  cases course with
  | @begin b r draining step =>
    obtain ⟨c, cycling⟩ : ∃ c, r.worker.activity = .cycling c := ⟨_, by rw [begin_eq draining step]; rfl⟩
    have underway := underway_begin draining step cycling
    rw [← underway.expiration]
    exact underway.follows
  | next before cycling meanwhile owner settings step =>
    have underway := before.underway cycling
    rcases (move_of_step step).cycle_step cycling with ⟨reply, answered, rfl⟩ | ⟨_, e, called, _, _, _, _, noted⟩
    · rw [← underway.expiration]
      exact underway.learns answered
    · refine absurd ?_ well
      simp [noted, failCycle]

theorem Course.over (course : w₀.Course others s₀ store₀ w store notes) (ended : .cycleEnded true ∈ notes) :
    w.activity = .waiting ∧ .cycleEnded false ∉ notes := by
  cases course with
  | begin draining step =>
    rw [begin_eq draining step] at ended
    simp [beginCycle, ask] at ended
  | next before cycling meanwhile owner settings step =>
    have goesOn := (before.underway cycling).goesOn
    rcases (move_of_step step).cycle_step cycling with ⟨reply, answered, rfl⟩ | ⟨_, e, called, _, quiet, _, _, noted⟩
    · simp only [List.mem_append] at ended ⊢
      have told := (ended.resolve_left (goesOn true)).resolve_left (goesOn_finish true)
      refine ⟨(ended_resume told).2, fun failed => ?_⟩
      cases (ended_resume ((failed.resolve_left (goesOn false)).resolve_left (goesOn_finish false))).1
    · have told := (List.mem_append.mp ended).resolve_left (goesOn true)
      rw [noted] at told
      cases ended_failCycle ((List.mem_append.mp told).resolve_left (quiet true))

theorem step_of_breaks (cycling : w.activity = .cycling c) (breaks : c.Breaks s store)
    (queue : List Command) : ∃ r, w.step s queue store = some r ∧ .cycleEnded false ∈ r.notes := by
  rcases breaks with ⟨due, e, failed⟩ | ⟨pending, late⟩
  · simp [step, cycling, due, failed, failCycle]
  · simp [step, cycling, pending, late, failCycle]

theorem ledger_learn (w : Worker) (expiration : Int) (owned : Option (List String)) :
    (w.learn expiration owned).slots.ledger = w.slots.ledger := by
  cases owned with
  | none => rfl
  | some owned => exact w.slots.ledger_assign owned.contains

theorem mustGiveUp_iff : w.mustGiveUp s = true
    ↔ ∃ point, w.confirmedUntil = some point ∧ Reading.sub point s.settings.graceMillis ≤ s.clock := by
  unfold mustGiveUp
  cases w.confirmedUntil <;> simp

theorem failCycle_worker (label : String) (e : LeaseError) : (w.failCycle s label c e).1
    = { w with
        slots := if w.mustGiveUp s then w.slots.assign fun _ => false else w.slots, activity := .waiting } := by
  rw [failCycle_eq]
  cases due : w.mustGiveUp s with
  | true => rw [giveUp_of_due due, if_pos rfl]
  | false => rw [giveUp_of_safe due, if_neg Bool.false_ne_true]

/-- A failed cycle leaves the local state as it was, or brought in line as a whole with what the store has
    told; then either everything or nothing is given up. -/
theorem failed_cycle_all_or_nothing (keyed : w₀.slots.Keyed)
    (course : w₀.Course others s₀ store₀ w store notes) (cycling : w.activity = .cycling c) :
    let learned := w₀.learn s₀.written (ownedIn notes)
    ((∃ r, w.step s queue store' = some r ∧ .cycleEnded false ∈ r.notes) ↔ c.Breaks s store')
      ∧ ∀ r, w.step s queue store' = some r → .cycleEnded false ∈ r.notes →
        r.worker = { learned with
            slots := if learned.mustGiveUp s then learned.slots.assign fun _ => false else learned.slots,
            activity := .waiting }
          ∧ (learned.mustGiveUp s = true ↔ ∃ point, learned.confirmedUntil = some point
            ∧ Reading.sub point s.settings.graceMillis ≤ s.clock)
          ∧ r.worker.slots.ledger = w₀.slots.ledger ∧ r.queue = queue
          ∧ ∀ name, eventsAbout name (notes ++ r.notes) = w₀.slots.announced learned.slots name
            ++ learned.slots.announced r.worker.slots name := by
  intro learned
  have underway := course.underway cycling
  have state : w = { learned with activity := w.activity } := by
    have worker := underway.follows.worker
    rw [underway.expiration] at worker
    exact worker
  have slots : w.slots = learned.slots := by rw [state]
  have ledger : w.slots.ledger = w₀.slots.ledger := by
    rw [slots]
    exact w₀.ledger_learn _ _
  have keyed' : w.slots.Keyed := by
    rw [Slots.Keyed, ledger]
    exact keyed
  constructor
  · constructor
    · rintro ⟨r, step, ended⟩
      exact ((move_of_step step).broken cycling ended).1
    · intro breaks
      exact step_of_breaks cycling breaks queue
  · intro r step ended
    obtain ⟨_, e, called, quiet, worker, waits, noted⟩ := (move_of_step step).broken cycling ended
    refine ⟨?_, mustGiveUp_iff, ?_, waits, fun name => ?_⟩
    · rw [worker, failCycle_worker, state]
      rfl
    · rw [worker, failCycle_eq, ledger_giveUp, ledger]
    · have news := eventsAbout_failCycle (s := s) (c := c) keyed' store'.label e name
      rw [noted, eventsAbout_append, eventsAbout_append, quiet, List.nil_append, news, ← worker,
        underway.follows.told keyed, slots]

/-- A link on which deletions of single rows fail after seven milliseconds. -/
def stubborn : Link := { failing := [.deleteOwned], delays := [(.deleteOwned, 7)] }

/-- A participant with eight milliseconds on leases, at a moment. -/
def solo (now : Nat) (link : Link) : Surroundings := ⟨now, now, now, link, ⟨.ofMillis 8, true⟩, "a"⟩

/-- A cycle claims a free name and cannot delete the row of another: it has told the new lease that it is
    held, and takes that back when the deletion fails. -/
theorem failed_cycle_all_or_nothing_orphan :
    ∃ (w₀ w : Worker) (store₀ store : Backend) (notes : List Note) (c : Cycle) (r : WorkerStep),
      w₀.slots.Keyed ∧ Course Eq w₀ (solo 0 .clear) store₀ w store notes ∧ w.activity = .cycling c
        ∧ w.step (solo 7 stubborn) [] store = some r ∧ .cycleEnded false ∈ r.notes
        ∧ ownedIn notes = some ["y", "x"]
        ∧ eventsAbout "x" (notes ++ r.notes) = [.event "x" 0 true, .event "x" 0 false] := by
  let w₀ : Worker := { fresh with slots := [("x", ⟨0, false⟩)], activity := .draining .empty }
  let store₀ : Backend := .memory ⟨[("y", ⟨"a", 5⟩)]⟩
  have begun : Course Eq w₀ (solo 0 .clear) store₀ _ _ _ := .begin rfl rfl
  have collected := begun.next (s := solo 0 .clear) rfl rfl rfl rfl (rfl : Worker.step _ _ [] _ = _)
  have refreshed := collected.next (s := solo 0 .clear) rfl rfl rfl rfl (rfl : Worker.step _ _ [] _ = _)
  have claimed := refreshed.next (s := solo 0 .clear) rfl rfl rfl rfl (rfl : Worker.step _ _ [] _ = _)
  have selected := claimed.next (s := solo 0 stubborn) rfl rfl rfl rfl (rfl : Worker.step _ _ [] _ = _)
  have keyed : w₀.slots.Keyed := List.nodup_singleton "x"
  obtain ⟨fails, told⟩ := failed_cycle_all_or_nothing (s := solo 7 stubborn) keyed selected rfl
  obtain ⟨r, step, ended⟩ := fails.mpr (.inl ⟨rfl, _, rfl⟩)
  obtain ⟨worker, _, _, _, events⟩ := told r step ended
  refine ⟨w₀, _, store₀, _, _, _, r, keyed, selected, rfl, step, ended, rfl, ?_⟩
  rw [events, worker]
  rfl

end Worker

end Leasehold
