import Leasehold.Proofs.CycleResult

/-! # A cycle in any order

The slots of a worker are kept in no order that means anything, and the store tells what is owned in any
order, some names more than once perhaps. `Worker.FreeCourse` is a cycle in which all calls succeed and
that walks over slots and names in whatever order, another one at each step. `Slots.review` is the walk
that brings the slots in line: along the names that are owned, then along the slots. Whatever the orders,
a cycle makes the same of table, slots and handles.
-/

namespace Leasehold

namespace Slots

variable {slots slots' : Slots} {name : String} {flag : Bool} {names owned order : List String}

/-! ## Slots in another order -/

theorem find?_eq_some_iff (keyed : slots.Keyed) {slot : Slot} :
    slots.find? name = some slot ↔ (name, slot) ∈ slots :=
  ⟨Keyed.mem_of_lookup, find?_of_mem keyed⟩

theorem keyed_of_perm (keyed : slots.Keyed) (same : slots'.Perm slots) : slots'.Keyed := by
  unfold Keyed ledger at keyed ⊢
  exact ((same.map _).map _).nodup_iff.mpr keyed

theorem find?_of_perm (keyed : slots.Keyed) (same : slots'.Perm slots) (name : String) :
    slots'.find? name = slots.find? name := by
  ext slot
  rw [find?_eq_some_iff keyed, find?_eq_some_iff (keyed_of_perm keyed same), same.mem_iff]

theorem announced_congr {after after' : Slots} (before : slots'.find? name = slots.find? name)
    (same : after'.find? name = after.find? name) :
    slots'.announced after' name = slots.announced after name := by
  rw [announced, announced, before, same]

theorem assign_congr {f g : String → Bool} (same : ∀ c ∈ slots, f c.1 = g c.1) :
    slots.assign f = slots.assign g := by
  refine List.map_congr_left fun c member => ?_
  rw [same c member]

/-! ## Walking over slots -/

/-- The slot of a name, if there is one, gets a flag. -/
def mark (slots : Slots) (name : String) (flag : Bool) : Slots :=
  slots.map fun c => (c.1, if c.1 = name then { c.2 with acquired := flag } else c.2)

/-- What the slot of a name is told when it gets a flag: nothing if it has this flag. -/
def told (slots : Slots) (name : String) (flag : Bool) : List Note :=
  match slots.find? name with
  | some slot => if slot.acquired = flag then [] else [.event name slot.id flag]
  | none => []

/-- The slots of these names get a flag, one after the other. -/
def walk (flag : Bool) : Slots → List String → Slots × List Note
  | slots, [] => (slots, [])
  | slots, name :: names =>
    let rest := walk flag (slots.mark name flag) names
    (rest.1, slots.told name flag ++ rest.2)

/-- Walks along the names that are owned, then along the slots, whose names are given in some order. -/
def review (slots : Slots) (owned order : List String) : Slots × List Note :=
  let raised := walk true slots owned
  let lowered := walk false raised.1 (order.filter fun name => !owned.contains name)
  (lowered.1, raised.2 ++ lowered.2)

theorem find?_mark (slots : Slots) (name : String) (flag : Bool) (other : String) :
    (slots.mark name flag).find? other = (slots.find? other).map fun slot =>
      if other = name then { slot with acquired := flag } else slot :=
  Keyed.lookup_map_value slots
    (fun n slot => if n = name then Slot.mk slot.id flag else slot) other

theorem told_mark_self (slots : Slots) (name : String) (flag : Bool) :
    (slots.mark name flag).told name flag = [] := by
  rw [told, find?_mark]
  cases slots.find? name <;> simp

theorem told_mark_of_ne (slots : Slots) {other : String} (ne : other ≠ name) (flag flag' : Bool) :
    (slots.mark name flag).told other flag' = slots.told other flag' := by
  rw [told, told, find?_mark]
  simp [ne]

theorem eventsAbout_told (slots : Slots) (name : String) (flag : Bool) (other : String) :
    eventsAbout other (slots.told name flag) = if other = name then slots.told name flag else [] := by
  unfold told
  cases slots.find? name with
  | none => simp [eventsAbout]
  | some slot =>
    by_cases same : other = name
    · subst same
      split <;> simp [eventsAbout, Note.isAbout, *]
    · split <;> simp [eventsAbout, Note.isAbout, same, Ne.symm same]

theorem walk_fst (flag : Bool) (slots : Slots) (names : List String) :
    (walk flag slots names).1
      = slots.map fun c => (c.1, if c.1 ∈ names then { c.2 with acquired := flag } else c.2) := by
  induction names generalizing slots with
  | nil => simp [walk]
  | cons name names ih =>
    rw [walk, ih, mark, List.map_map]
    refine List.map_congr_left fun c _ => ?_
    by_cases first : c.1 = name <;> by_cases later : c.1 ∈ names <;> simp [first, later]

theorem eventsAbout_walk (flag : Bool) (slots : Slots) (names : List String) (name : String) :
    eventsAbout name (walk flag slots names).2 = if name ∈ names then slots.told name flag else [] := by
  induction names generalizing slots with
  | nil => simp [walk, eventsAbout]
  | cons first names ih =>
    rw [walk, eventsAbout_append, eventsAbout_told, ih]
    by_cases same : name = first
    · subst same
      simp [told_mark_self]
    · rw [if_neg same, List.nil_append, told_mark_of_ne slots same]
      simp [same]

theorem review_fst (complete : ∀ c ∈ slots, c.1 ∈ order) :
    (slots.review owned order).1 = slots.assign owned.contains := by
  rw [review, walk_fst, walk_fst, List.map_map]
  refine List.map_congr_left fun c member => ?_
  have listed := complete c member
  by_cases mine : c.1 ∈ owned <;> simp [mine, listed]

theorem told_of_gone (gone : slots.find? name = none) (flag : Bool) : slots.told name flag = [] := by
  rw [told, gone]

theorem announced_assign_eq (slots : Slots) (f : String → Bool) (name : String) :
    slots.announced (slots.assign f) name = slots.told name (f name) := by
  rw [announced, told, find?_assign]
  cases slots.find? name <;> rfl

theorem eventsAbout_review (complete : ∀ c ∈ slots, c.1 ∈ order) (name : String) :
    eventsAbout name (slots.review owned order).2
      = slots.announced (slots.assign owned.contains) name := by
  have untouched (other : name ∉ owned) :
      (walk true slots owned).1.find? name = slots.find? name := by
    rw [walk_fst, find?, Keyed.lookup_map_value slots
      (fun n slot => if n ∈ owned then Slot.mk slot.id true else slot)]
    simp [find?, other]
  rw [review, eventsAbout_append, eventsAbout_walk, eventsAbout_walk, announced_assign_eq]
  by_cases mine : name ∈ owned
  · simp [mine]
  · cases found : slots.find? name with
    | none => simp [mine, told, untouched mine, found]
    | some slot =>
      have listed := complete _ (Keyed.mem_of_lookup found)
      simp [mine, listed, told, untouched mine, found]

theorem event_of_mem_walk {n : Note} (member : n ∈ (walk flag slots names).2) :
    ∃ name id, n = .event name id flag := by
  induction names generalizing slots with
  | nil => cases member
  | cons name names ih =>
    rcases List.mem_append.mp member with first | later
    · unfold told at first
      split at first
      · split at first
        · cases first
        · exact ⟨_, _, List.mem_singleton.mp first⟩
      · cases first
    · exact ih later

theorem goesOn_review (succeeded : Bool) : .cycleEnded succeeded ∉ (slots.review owned order).2 := by
  intro member
  rcases List.mem_append.mp member with raised | lowered
  · obtain ⟨name, id, eq⟩ := event_of_mem_walk raised
    cases eq
  · obtain ⟨name, id, eq⟩ := event_of_mem_walk lowered
    cases eq

theorem mem_wanted_of_perm (keyed : slots.Keyed) (same : slots'.Perm slots) (name : String) :
    name ∈ slots'.wanted ↔ name ∈ slots.wanted := by
  rw [mem_wanted_iff (keyed_of_perm keyed same), mem_wanted_iff keyed, find?_of_perm keyed same]

end Slots

/-- The plan of a cycle does not depend on the order of the slots. -/
theorem Stage.outcome_of_perm {slots slots' : Slots} (keyed : slots.Keyed) (same : slots'.Perm slots)
    (stage : Stage) (owner : String) (start expiration : Int) (held : Holdings) :
    stage.outcome slots' owner start expiration held = stage.outcome slots owner start expiration held := by
  have settled (held : Holdings) : held.settled slots' owner = held.settled slots owner := by
    funext name
    simp only [Holdings.settled, Slots.find?_of_perm keyed same]
  have claimed (held : Holdings) : (Request.claimAbsent slots'.wanted owner expiration).effect held
      = (Request.claimAbsent slots.wanted owner expiration).effect held := by
    funext name
    simp only [Request.effect, Slots.mem_wanted_of_perm keyed same]
  cases stage <;> simp only [outcome, settled, claimed]

theorem Stage.question_of_ne {stage : Stage} (other : stage ≠ .claiming) (slots slots' : Slots)
    (owner : String) (start expiration : Int) :
    stage.question slots' owner start expiration = stage.question slots owner start expiration := by
  cases stage with
  | claiming => exact absurd rfl other
  | _ => rfl

namespace Worker

/-- The worker once it has walked along the names that are owned and along its slots. -/
def walked (w : Worker) (expiration : Int) (owned order : List String) : Worker :=
  { w with slots := (w.slots.review owned order).1, confirmedUntil := some expiration }

/-- Goes on with a cycle that has been told what is owned, walking along these names and these slots. -/
def review (w : Worker) (s : Surroundings) (c : Cycle) (owned order : List String) :
    Worker × List Note :=
  let rest := (w.walked c.expiration owned order).purge s c (w.orphans owned)
  (rest.1, (w.slots.review owned order).2 ++ rest.2)

/-- A cycle in which all calls succeed and nobody else uses the store, in whatever order it walks over
    slots and names: what has become of the worker and the store, and what has happened so far. -/
inductive FreeCourse (w₀ : Worker) (s₀ : Surroundings) (store₀ : Backend) :
    Worker → Backend → List Note → Prop where
  | begin {slots b r} (draining : w₀.activity = .draining b) (shuffled : slots.Perm w₀.slots)
      (step : ({ w₀ with slots } : Worker).step s₀ [] store₀ = some r) :
      FreeCourse w₀ s₀ store₀ r.worker r.store r.notes
  | answer {w s slots store notes c reply} (before : FreeCourse w₀ s₀ store₀ w store notes)
      (cycling : w.activity = .cycling c) (other : c.stage ≠ .selecting) (owner : s.owner = s₀.owner)
      (shuffled : slots.Perm w.slots)
      (answered : (c.call.finish .worker s.trueTime store).1 = .ok reply) :
      FreeCourse w₀ s₀ store₀ (({ w with slots } : Worker).resume s c reply).1
        (c.call.finish .worker s.trueTime store).2.1
        (notes ++ ((c.call.finish .worker s.trueTime store).2.2
          ++ (({ w with slots } : Worker).resume s c reply).2))
  /-- The store tells what is owned. -/
  | select {w s store notes c reply owned order} (before : FreeCourse w₀ s₀ store₀ w store notes)
      (cycling : w.activity = .cycling c) (selecting : c.stage = .selecting) (owner : s.owner = s₀.owner)
      (answered : (c.call.finish .worker s.trueTime store).1 = .ok reply)
      (told : ∀ name, name ∈ owned ↔ name ∈ reply.nameList)
      (complete : order.Perm (w.slots.map (·.1))) :
      FreeCourse w₀ s₀ store₀ (w.review s c owned order).1 (c.call.finish .worker s.trueTime store).2.1
        (notes ++ ((c.call.finish .worker s.trueTime store).2.2 ++ (w.review s c owned order).2))

variable {w w₀ : Worker} {s s₀ : Surroundings} {store store₀ : Backend} {notes : List Note} {c c' : Cycle}
  {reply : Reply} {slots : Slots} {owned order names : List String}

/-- Whether the owner will have the row of a name at the end of a cycle. -/
def owns (w₀ : Worker) (s₀ : Surroundings) (store₀ : Backend) (name : String) : Bool :=
  (w₀.outcome s₀ store₀ name).any fun h => h.owner = s₀.owner

/-- The slots as a cycle leaves them, in the order that they had before. -/
def settledSlots (w₀ : Worker) (s₀ : Surroundings) (store₀ : Backend) : Slots :=
  w₀.slots.assign (w₀.owns s₀ store₀)

/-- The worker has brought its slots in line, and has told what that changes. -/
structure Reviewed (w₀ : Worker) (s₀ : Surroundings) (store₀ : Backend) (w : Worker) (notes : List Note) :
    Prop where
  slots : w.slots.Perm (w₀.settledSlots s₀ store₀)
  confirmed : w.confirmedUntil = some s₀.written
  told : ∀ name, eventsAbout name notes = w₀.slots.announced (w₀.settledSlots s₀ store₀) name

/-- What is known of a cycle in any order: it keeps to its plan, and has told nothing until it is told what
    is owned. -/
structure OnPlan (w₀ : Worker) (s₀ : Surroundings) (store₀ : Backend) (w : Worker) (store : Backend)
    (notes : List Note) : Prop where
  keyed : store.Keyed
  plan : w.planned w₀.slots s₀.owner s₀.clock store.held = w₀.outcome s₀ store₀
  expiration : ∀ c, w.activity = .cycling c → c.expiration = s₀.written
  asks : ∀ c, w.activity = .cycling c → ∃ slots : Slots, slots.Perm w₀.slots
    ∧ c.call.request = c.stage.question slots s₀.owner s₀.clock c.expiration
  goesOn : ∀ c, w.activity = .cycling c → ∀ succeeded, .cycleEnded succeeded ∉ notes
  unaware : ∀ c, w.activity = .cycling c → (∀ name rest, c.stage ≠ .purging name rest) →
    w.slots.Perm w₀.slots ∧ ∀ name, eventsAbout name notes = []
  reviewed : (∀ c, w.activity = .cycling c → ∃ name rest, c.stage = .purging name rest) →
    w₀.Reviewed s₀ store₀ w notes

theorem onPlan_begin {b : Batch} {r : WorkerStep} (keyed' : store₀.Keyed)
    (draining : w₀.activity = .draining b) (shuffled : slots.Perm w₀.slots)
    (step : ({ w₀ with slots } : Worker).step s₀ [] store₀ = some r) :
    w₀.OnPlan s₀ store₀ r.worker r.store r.notes := by
  have draining' : ({ w₀ with slots } : Worker).activity = .draining b := draining
  rw [begin_eq draining' step]
  have only {c : Cycle} (cycling : (({ w₀ with slots } : Worker).beginCycle s₀ b.tickets).1.activity
      = .cycling c) : c.stage = .collecting ∧ c.expiration = s₀.written
        ∧ c.call.request = .deleteExpired s₀.clock := by
    cases cycling
    exact ⟨rfl, rfl, rfl⟩
  refine ⟨keyed', rfl, fun c cycling => (only cycling).2.1, fun c cycling => ?_, fun c _ => ?_,
    fun c _ _ => ⟨shuffled, fun _ => rfl⟩, fun late => ?_⟩
  · refine ⟨slots, shuffled, ?_⟩
    rw [(only cycling).1, (only cycling).2.2]
    rfl
  · simp [beginCycle, ask]
  · obtain ⟨name, rest, purging⟩ := late _ rfl
    cases purging

theorem planned_of_perm {slots' : Slots} (keyed : slots.Keyed) (same : slots'.Perm slots)
    (w : Worker) (owner : String) (start : Int) (held : Holdings) :
    w.planned slots' owner start held = w.planned slots owner start held := by
  unfold planned
  split
  · exact Stage.outcome_of_perm keyed same _ _ _ _ _
  · rfl

/-- An answer takes one request off the plan, in whatever order the slots are by now. -/
theorem OnPlan.planned_answer (before : w₀.OnPlan s₀ store₀ w store notes) (keyed : w₀.slots.Keyed)
    (cycling : w.activity = .cycling c) (other : c.stage ≠ .selecting) (owner : s.owner = s₀.owner)
    (shuffled : slots.Perm w.slots) (answered : (c.call.finish .worker s.trueTime store).1 = .ok reply) :
    (({ w with slots } : Worker).resume s c reply).1.planned w₀.slots s₀.owner s₀.clock
      (c.call.finish .worker s.trueTime store).2.1.held = w₀.outcome s₀ store₀ := by
  obtain ⟨asked, same, asks⟩ := before.asks c cycling
  have whole : c.stage.outcome w₀.slots s₀.owner s₀.clock c.expiration store.held
      = w₀.outcome s₀ store₀ := by
    simpa only [planned, cycling] using before.plan
  rw [← whole, ← owner]
  rw [← owner] at asks
  cases stage : c.stage with
  | selecting => exact absurd stage other
  | claiming =>
    -- The claim was made for the slots in an order of its own, and its answer does not look at them.
    have step := planned_resume (w := { w with slots := asked }) before.keyed (fun _ => rfl) asks answered
    simp only [resume, stage, Worker.planned_of_perm keyed same, Stage.outcome_of_perm keyed same] at step ⊢
    exact step
  | purging name rest =>
    have late : ¬ ∀ name rest, c.stage ≠ .purging name rest := fun early => early name rest stage
    have asks' := asks.trans (Stage.question_of_ne (by simp [stage]) w₀.slots asked _ _ _)
    have step := planned_resume (w := { w with slots }) before.keyed (fun early => absurd early late)
      asks' answered
    rw [stage] at step
    exact step
  | collecting | refreshing =>
    have shuffled' : slots.Perm w₀.slots :=
      shuffled.trans (before.unaware c cycling (by simp [stage])).1
    have asks' := asks.trans (Stage.question_of_ne (by simp [stage]) slots asked _ _ _)
    have step := planned_resume (w := { w with slots }) before.keyed (fun _ => rfl) asks' answered
    rw [Worker.planned_of_perm keyed shuffled', Stage.outcome_of_perm keyed shuffled', stage] at step
    exact step

/-- An answer that does not tell what is owned is according to plan. -/
theorem OnPlan.answer (before : w₀.OnPlan s₀ store₀ w store notes) (keyed : w₀.slots.Keyed)
    (cycling : w.activity = .cycling c) (other : c.stage ≠ .selecting) (owner : s.owner = s₀.owner)
    (shuffled : slots.Perm w.slots) (answered : (c.call.finish .worker s.trueTime store).1 = .ok reply) :
    w₀.OnPlan s₀ store₀ (({ w with slots } : Worker).resume s c reply).1
      (c.call.finish .worker s.trueTime store).2.1
      (notes ++ ((c.call.finish .worker s.trueTime store).2.2
        ++ (({ w with slots } : Worker).resume s c reply).2)) := by
  have quiet (name : String) : eventsAbout name (notes ++ ((c.call.finish .worker s.trueTime store).2.2
      ++ (({ w with slots } : Worker).resume s c reply).2)) = eventsAbout name notes := by
    rw [eventsAbout_append, eventsAbout_append, eventsAbout_finish,
      eventsAbout_of_quiet (eventsIn_resume other), List.append_nil, List.append_nil]
  obtain ⟨activity, eq⟩ : ∃ activity, (({ w with slots } : Worker).resume s c reply).1
      = { w with slots, activity } := by
    rcases ({ w with slots } : Worker).resume_eq s c reply with ⟨_, same⟩ | ⟨selecting, _⟩
    · exact same
    · exact absurd selecting other
  refine ⟨Call.keyed_finish _ _ _ before.keyed,
    before.planned_answer keyed cycling other owner shuffled answered, fun c' next => ?_, fun c' next => ?_,
    fun c' next succeeded member => ?_, fun c' next early => ?_, fun late => ?_⟩
  · exact (resume_goesOn next).1.trans (before.expiration c cycling)
  · obtain ⟨expiration, asks, early⟩ := resume_goesOn next
    rw [expiration, ← owner]
    by_cases claiming : c'.stage = .claiming
    · have plain := (early (by simp [claiming])).2
      exact ⟨slots, shuffled.trans (before.unaware c cycling plain).1, asks s₀.clock⟩
    · exact ⟨w₀.slots, .refl _, (asks s₀.clock).trans (Stage.question_of_ne claiming _ _ _ _ _)⟩
  · rcases List.mem_append.mp member with old | new
    · exact before.goesOn c cycling succeeded old
    · rcases List.mem_append.mp new with called | told
      · exact goesOn_finish succeeded called
      · cases (ended_resume told).2.symm.trans next
  · have plain := ((resume_goesOn next).2.2 early).2
    obtain ⟨same, silent⟩ := before.unaware c cycling plain
    rw [eq]
    exact ⟨shuffled.trans same, fun name => (quiet name).trans (silent name)⟩
  · have purging := (informed_of_resume late).resolve_left other
    have reviewed := before.reviewed fun c' again => by
      rw [cycling] at again
      cases again
      exact purging
    rw [eq]
    exact ⟨shuffled.trans reviewed.slots, reviewed.confirmed,
      fun name => (quiet name).trans (reviewed.told name)⟩

theorem OnPlan.owned_iff (before : w₀.OnPlan s₀ store₀ w store notes)
    (cycling : w.activity = .cycling c) (selecting : c.stage = .selecting)
    (answered : (c.call.finish .worker s.trueTime store).1 = .ok reply)
    (told : ∀ name, name ∈ owned ↔ name ∈ reply.nameList) (name : String) :
    name ∈ owned ↔ ∃ e, store.held name = some ⟨s₀.owner, e⟩ := by
  obtain ⟨asked, _, asks⟩ := before.asks c cycling
  obtain ⟨performed, _, _⟩ := Call.finish_ok answered
  rw [asks, selecting] at performed
  rw [told, Backend.mem_nameList_selectOwned before.keyed performed]

theorem OnPlan.held_select (before : w₀.OnPlan s₀ store₀ w store notes)
    (cycling : w.activity = .cycling c) (selecting : c.stage = .selecting)
    (answered : (c.call.finish .worker s.trueTime store).1 = .ok reply) :
    (c.call.finish .worker s.trueTime store).2.1.held = store.held
      ∧ store.held.settled w₀.slots s₀.owner = w₀.outcome s₀ store₀ := by
  obtain ⟨asked, _, asks⟩ := before.asks c cycling
  obtain ⟨performed, next, _⟩ := Call.finish_ok answered
  constructor
  · rw [next, Backend.held_perform before.keyed performed, asks, selecting]
    rfl
  · have plan := before.plan
    simp only [planned, cycling, selecting] at plan
    exact plan

/-- The walk that brings the slots in line is according to plan, whatever its order. -/
theorem OnPlan.select (before : w₀.OnPlan s₀ store₀ w store notes) (keyed : w₀.slots.Keyed)
    (cycling : w.activity = .cycling c) (selecting : c.stage = .selecting) (owner : s.owner = s₀.owner)
    (answered : (c.call.finish .worker s.trueTime store).1 = .ok reply)
    (told : ∀ name, name ∈ owned ↔ name ∈ reply.nameList) (complete : order.Perm (w.slots.map (·.1))) :
    w₀.OnPlan s₀ store₀ (w.review s c owned order).1 (c.call.finish .worker s.trueTime store).2.1
      (notes ++ ((c.call.finish .worker s.trueTime store).2.2 ++ (w.review s c owned order).2)) := by
  obtain ⟨same, silent⟩ := before.unaware c cycling (by simp [selecting])
  obtain ⟨held, settled⟩ := before.held_select cycling selecting answered
  have mine := before.owned_iff cycling selecting answered told
  have listed : ∀ c ∈ w.slots, c.1 ∈ order := fun c member =>
    complete.mem_iff.mpr (List.mem_map_of_mem member)
  have final : w₀.slots.assign owned.contains = w₀.settledSlots s₀ store₀ := by
    refine Slots.assign_congr fun c member => Bool.eq_iff_iff.mpr ?_
    have tracked := Slots.find?_of_mem keyed member
    rw [owns, ← settled, Holdings.settled_of_slot tracked, List.contains_iff_mem, mine, Option.any_eq_true]
    constructor
    · rintro ⟨e, there⟩
      exact ⟨_, there, by simp⟩
    · rintro ⟨⟨owner, e⟩, there, own⟩
      exact ⟨e, by simpa [there] using own⟩
  have events (name : String) : eventsAbout name (notes ++ ((c.call.finish .worker s.trueTime store).2.2
      ++ (w.review s c owned order).2)) = w₀.slots.announced (w₀.settledSlots s₀ store₀) name := by
    have assigned : (w.slots.assign owned.contains).find? name
        = (w₀.slots.assign owned.contains).find? name := by
      rw [Slots.find?_assign, Slots.find?_assign, Slots.find?_of_perm keyed same]
    rw [eventsAbout_append, silent, eventsAbout_append, eventsAbout_finish, review, eventsAbout_append,
      eventsAbout_of_quiet (eventsIn_purge _ _ _ _), List.append_nil, List.nil_append, List.nil_append,
      Slots.eventsAbout_review listed, ← final]
    exact Slots.announced_congr (Slots.find?_of_perm keyed same name) assigned
  have next {c' : Cycle} (cycling' : (w.review s c owned order).1.activity = .cycling c') :
      c'.expiration = c.expiration ∧ ∃ name rest, c'.stage = .purging name rest
        ∧ c'.call.request = .deleteOwned name s₀.owner := by
    rw [← owner]
    unfold review at cycling'
    cases orphans : w.orphans owned with
    | nil =>
      rw [orphans] at cycling'
      cases cycling'
    | cons name rest =>
      rw [orphans] at cycling'
      cases cycling'
      exact ⟨rfl, name, rest, rfl, rfl⟩
  obtain ⟨activity, eq⟩ := (w.walked c.expiration owned order).purge_eq s c (w.orphans owned)
  refine ⟨Call.keyed_finish _ _ _ before.keyed, ?_, fun c' going => ?_, fun c' going => ?_,
    fun c' going succeeded member => ?_, fun c' going early => ?_, fun _ => ⟨?_, ?_, events⟩⟩
  · rw [held, review, planned_purge, ← settled]
    refine Holdings.without_orphans fun name => ?_
    rw [mem_orphans, mine, Slots.find?_of_perm keyed same]
  · exact (next going).1.trans (before.expiration c cycling)
  · obtain ⟨_, name, rest, stage, asks⟩ := next going
    exact ⟨w₀.slots, .refl _, by rw [asks, stage]; rfl⟩
  · simp only [review, List.mem_append] at member
    rcases member with old | called | walked | ended
    · exact before.goesOn c cycling succeeded old
    · exact goesOn_finish succeeded called
    · exact Slots.goesOn_review succeeded walked
    · obtain ⟨_, none⟩ := ended_purge ended
      unfold review at going
      rw [none] at going
      cases going
  · obtain ⟨_, name, rest, stage, _⟩ := next going
    exact absurd stage (early name rest)
  · rw [review, eq, ← final]
    change List.Perm (w.slots.review owned order).1 _
    rw [Slots.review_fst listed]
    exact same.map _
  · rw [review, eq, ← before.expiration c cycling]
    rfl

theorem FreeCourse.onPlan (course : w₀.FreeCourse s₀ store₀ w store notes) (keyed : w₀.slots.Keyed)
    (keyed' : store₀.Keyed) : w₀.OnPlan s₀ store₀ w store notes := by
  induction course with
  | begin draining shuffled step => exact onPlan_begin keyed' draining shuffled step
  | answer before cycling other owner shuffled answered ih =>
    exact ih.answer keyed cycling other owner shuffled answered
  | select before cycling selecting owner answered told complete ih =>
    exact ih.select keyed cycling selecting owner answered told complete

theorem FreeCourse.arrives (course : w₀.FreeCourse s₀ store₀ w store notes) (keyed : w₀.slots.Keyed)
    (keyed' : store₀.Keyed) (ended : .cycleEnded true ∈ notes) :
    store.Keyed ∧ store.held = w₀.outcome s₀ store₀ ∧ w₀.Reviewed s₀ store₀ w notes := by
  have onPlan := course.onPlan keyed keyed'
  have idle (c : Cycle) : w.activity ≠ .cycling c := fun cycling => onPlan.goesOn c cycling true ended
  refine ⟨onPlan.keyed, ?_, onPlan.reviewed fun c cycling => absurd cycling (idle c)⟩
  have plan := onPlan.plan
  unfold planned at plan
  split at plan
  · rename_i c cycling
    exact absurd cycling (idle c)
  · exact plan

/-! ## The order that a worker takes -/

theorem review_eq_resume (selecting : c.stage = .selecting) :
    (w.review s c reply.nameList (w.slots.map (·.1))).1 = (w.resume s c reply).1 := by
  have slots : (w.slots.review reply.nameList (w.slots.map (·.1))).1
      = w.slots.assign reply.nameList.contains :=
    Slots.review_fst fun c member => List.mem_map_of_mem member
  simp only [resume, selecting, review, walked, slots]
  rfl

theorem eventsAbout_review (keyed : w.slots.Keyed) (selecting : c.stage = .selecting) (name : String) :
    eventsAbout name (w.review s c reply.nameList (w.slots.map (·.1))).2
      = eventsAbout name (w.resume s c reply).2 := by
  rw [resume_of_selecting selecting, review, eventsAbout_append, eventsAbout_append,
    eventsAbout_reconcile keyed, eventsAbout_of_quiet (eventsIn_purge _ _ _ _),
    eventsAbout_of_quiet (eventsIn_purge _ _ _ _)]
  exact congrArg (· ++ []) (Slots.eventsAbout_review
    (fun c member => List.mem_map_of_mem (f := (·.1)) member) name)

theorem ended_review_iff (selecting : c.stage = .selecting) (succeeded : Bool) :
    .cycleEnded succeeded ∈ (w.review s c reply.nameList (w.slots.map (·.1))).2
      ↔ .cycleEnded succeeded ∈ (w.resume s c reply).2 := by
  have same : ((w.walked c.expiration reply.nameList (w.slots.map (·.1))).purge s c
      (w.orphans reply.nameList)).2
        = ((w.reconcile s reply.nameList c.expiration).1.purge s c (w.orphans reply.nameList)).2 := by
    cases w.orphans reply.nameList <;> rfl
  have silent : .cycleEnded succeeded ∉ (w.reconcile s reply.nameList c.expiration).2 := by
    intro member
    cases remarks_reconcile _ _ _ member
  rw [resume_of_selecting selecting, review, same, List.mem_append, List.mem_append,
    or_iff_right (Slots.goesOn_review succeeded), or_iff_right silent]

/-- The course of a cycle that does not fail is one of those in any order, down to worker and table. -/
theorem Course.free (course : w₀.Course Eq s₀ store₀ w store notes) (keyed : w₀.slots.Keyed)
    (well : .cycleEnded false ∉ notes) :
    ∃ notes', w₀.FreeCourse s₀ store₀ w store notes'
      ∧ (∀ name, eventsAbout name notes' = eventsAbout name notes)
      ∧ (.cycleEnded true ∈ notes' ↔ .cycleEnded true ∈ notes) := by
  induction course with
  | begin draining step => exact ⟨_, .begin draining (.refl _) step, fun _ => rfl, Iff.rfl⟩
  | @next w s queue store _ notes c r before cycling meanwhile owner settings step ih =>
    subst meanwhile
    obtain ⟨notes', free, events, ended⟩ := ih fun failed => well (List.mem_append_left _ failed)
    rcases (move_of_step step).cycle_step cycling with ⟨reply, answered, rfl⟩ | ⟨_, e, called, _, _, _, _, noted⟩
    · by_cases selecting : c.stage = .selecting
      · have underway := before.underway cycling
        have slots := underway.slots (underway.unanswered (by simp [selecting]))
        have course := free.select cycling selecting owner answered (fun _ => Iff.rfl)
          (.refl (w.slots.map (·.1)))
        rw [review_eq_resume selecting] at course
        refine ⟨_, course, fun name => ?_, ?_⟩
        · simp only [eventsAbout_append, events, eventsAbout_review (slots ▸ keyed) selecting]
        · simp only [List.mem_append, ended, ended_review_iff selecting]
      · have course := free.answer cycling selecting owner (.refl w.slots) answered
        refine ⟨_, course, fun name => ?_, ?_⟩
        · simp only [eventsAbout_append, events]
        · simp only [List.mem_append, ended]
    · refine absurd ?_ well
      simp [noted, failCycle]

/-! ## Every order leads to the end -/

/-- A free course can be brought to its end. -/
def Completes (w₀ : Worker) (s₀ : Surroundings) (store₀ : Backend) : Prop :=
  ∃ w store notes, w₀.FreeCourse s₀ store₀ w store notes ∧ .cycleEnded true ∈ notes

theorem FreeCourse.answered (course : w₀.FreeCourse s₀ store₀ w store notes) (keyed : w₀.slots.Keyed)
    (keyed' : store₀.Keyed) (cycling : w.activity = .cycling c) (prompt : c.call.Prompt s.now)
    (ready : store.isReady = true) :
    ∃ reply, (c.call.finish .worker s.trueTime store).1 = .ok reply
      ∧ (c.call.finish .worker s.trueTime store).2.1.isReady = true := by
  have keeps : c.call.request ≠ .dropSchema := by
    obtain ⟨slots, _, asks⟩ := (course.onPlan keyed keyed').asks c cycling
    rw [asks]
    exact question_keeps _ _ _ _ _
  cases result : (c.call.finish .worker s.trueTime store).1 with
  | error e => exact absurd result (prompt.not_failed ready .worker s.trueTime e)
  | ok reply => exact ⟨reply, rfl, Call.isReady_finish _ _ _ ready keeps⟩

theorem completes_of_purge (keyed : w₀.slots.Keyed) (keyed' : store₀.Keyed) (owner : s.owner = s₀.owner)
    (clear : s.link = .clear) (names : List String)
    (course : w₀.FreeCourse s₀ store₀ (w.purge s c names).1 store (notes ++ (w.purge s c names).2))
    (ready : store.isReady = true) : w₀.Completes s₀ store₀ := by
  induction names generalizing w c store notes with
  | nil => exact ⟨_, _, _, course, by simp [purge, endCycle]⟩
  | cons name rest ih =>
    have prompt := Call.prompt_place s.now (.deleteOwned name s.owner)
    rw [← clear] at prompt
    obtain ⟨reply, answered, ready'⟩ := course.answered keyed keyed' rfl prompt ready
    have next := course.answer rfl Stage.noConfusion owner (.refl _) answered
    rw [← List.append_assoc] at next
    exact ih next ready'

/-- On a clear link, no order leads a cycle into a dead end. -/
theorem FreeCourse.completes (course : w₀.FreeCourse s₀ store₀ w store notes) (keyed : w₀.slots.Keyed)
    (keyed' : store₀.Keyed) (owner : s.owner = s₀.owner) (clear : s.link = .clear)
    (cycling : w.activity = .cycling c) (prompt : c.call.Prompt s.now) (ready : store.isReady = true) :
    w₀.Completes s₀ store₀ := by
  have placed (request : Request) : (Call.place s.link s.now request).Prompt s.now := by
    rw [clear]
    exact Call.prompt_place s.now request
  induction left : 4 - c.stage.index using Nat.strong_induction_on generalizing w c store notes with
  | _ n ih =>
    obtain ⟨reply, answered, ready'⟩ := course.answered keyed keyed' cycling prompt ready
    by_cases selecting : c.stage = .selecting
    · have next := course.select cycling selecting owner answered (fun _ => Iff.rfl)
        (.refl (w.slots.map (·.1)))
      simp only [review, ← List.append_assoc] at next
      exact completes_of_purge keyed keyed' owner clear _ next ready'
    · have next := course.answer cycling selecting owner (.refl w.slots) answered
      cases stage : c.stage with
      | selecting => exact absurd stage selecting
      | collecting =>
        simp only [resume, stage] at next
        exact ih 3 (by rw [← left, stage]; decide) next rfl (placed _) ready' rfl
      | refreshing =>
        simp only [resume, stage] at next
        by_cases none : w.slots.wanted.isEmpty = true
        · rw [if_pos none] at next
          exact ih 1 (by rw [← left, stage]; decide) next rfl (placed _) ready' rfl
        · rw [if_neg none] at next
          exact ih 2 (by rw [← left, stage]; decide) next rfl (placed _) ready' rfl
      | claiming =>
        simp only [resume, stage] at next
        exact ih 1 (by rw [← left, stage]; decide) next rfl (placed _) ready' rfl
      | purging name rest =>
        simp only [resume, stage, ← List.append_assoc] at next
        exact completes_of_purge keyed keyed' owner clear _ next ready'

/-! ## No order makes a difference -/

/-- Two cycles from the same slots, table and clock, each in an order of its own at every step, end with the
    same table, the same slots and the same confirmation, and have told every name the same. The cycle that
    a worker goes through is one of them; and on a clear link to a store that is ready, no order leads into
    a dead end. -/
theorem cycle_in_any_order (keyed : w₀.slots.Keyed) (keyed' : store₀.Keyed) :
    (∀ w store notes w' store' notes', w₀.FreeCourse s₀ store₀ w store notes →
      w₀.FreeCourse s₀ store₀ w' store' notes' → .cycleEnded true ∈ notes → .cycleEnded true ∈ notes' →
        store.rows.Perm store'.rows
          ∧ (∀ name, w.slots.find? name = w'.slots.find? name)
          ∧ (∀ name, eventsAbout name notes = eventsAbout name notes')
          ∧ w.confirmedUntil = w'.confirmedUntil)
      ∧ (∀ w store notes, w₀.Course Eq s₀ store₀ w store notes → .cycleEnded true ∈ notes →
        ∃ notes', w₀.FreeCourse s₀ store₀ w store notes' ∧ .cycleEnded true ∈ notes'
          ∧ ∀ name, eventsAbout name notes' = eventsAbout name notes)
      ∧ ∀ w store notes c (s : Surroundings), w₀.FreeCourse s₀ store₀ w store notes → w.activity = .cycling c →
        s.owner = s₀.owner → s.link = .clear → c.call.Prompt s.now → store.isReady = true →
          w₀.Completes s₀ store₀ := by
  refine ⟨?_, ?_, ?_⟩
  · intro w store notes w' store' notes' course course' ended ended'
    obtain ⟨tidy, held, reviewed⟩ := course.arrives keyed keyed' ended
    obtain ⟨tidy', held', reviewed'⟩ := course'.arrives keyed keyed' ended'
    have settled : (w₀.settledSlots s₀ store₀).Keyed := by
      rw [Slots.Keyed, settledSlots, Slots.ledger_assign]
      exact keyed
    refine ⟨?_, fun name => ?_, fun name => ?_, ?_⟩
    · rw [List.perm_ext_iff_of_nodup (.of_map _ (Backend.nodup_rows tidy))
        (.of_map _ (Backend.nodup_rows tidy'))]
      intro row
      rw [Backend.mem_rows_iff tidy, Backend.mem_rows_iff tidy', held, held']
    · rw [Slots.find?_of_perm settled reviewed.slots, Slots.find?_of_perm settled reviewed'.slots]
    · rw [reviewed.told, reviewed'.told]
    · rw [reviewed.confirmed, reviewed'.confirmed]
  · intro w store notes course ended
    obtain ⟨notes', free, events, same⟩ := course.free keyed (course.over ended).2
    exact ⟨notes', free, same.mpr ended, events⟩
  · intro w store notes c s course cycling owner clear prompt ready
    exact course.completes keyed keyed' owner clear cycling prompt ready

/-- Two leases are claimed, one is lost, and two rows are left over: in the order of the slots, and the other
    way round with names told twice. -/
theorem cycle_in_any_order_reversed :
    let w₀ : Worker := { fresh with
      slots := [("x", ⟨0, false⟩), ("y", ⟨1, false⟩), ("z", ⟨2, true⟩)], activity := .draining .empty }
    let store₀ : Backend := .memory ⟨[("o", ⟨"a", 5⟩), ("p", ⟨"a", 6⟩)]⟩
    ∃ (w w' : Worker) (store store' : Backend) (notes notes' : List Note),
      w₀.slots.Keyed ∧ store₀.Keyed ∧ w₀.FreeCourse (solo 0 .clear) store₀ w store notes
        ∧ w₀.FreeCourse (solo 0 .clear) store₀ w' store' notes'
        ∧ .cycleEnded true ∈ notes ∧ .cycleEnded true ∈ notes'
        ∧ eventsIn notes = [(0, true), (1, true), (2, false)]
        ∧ eventsIn notes' = [(1, true), (0, true), (2, false)]
        ∧ store.rows.Perm store'.rows ∧ eventsAbout "x" notes = eventsAbout "x" notes' := by
  have twice : ["p", "y", "y", "o", "x", "p"] ⊆ ["o", "p", "y", "x"] := by simp
  have once : ["o", "p", "y", "x"] ⊆ ["p", "y", "y", "o", "x", "p"] := by simp
  have told (name : String) : name ∈ ["p", "y", "y", "o", "x", "p"] ↔ name ∈ ["o", "p", "y", "x"] :=
    ⟨fun member => twice member, fun member => once member⟩
  intro w₀ store₀
  have keyed : w₀.slots.Keyed := by simp [w₀, Slots.Keyed, Slots.ledger]
  have keyed' : store₀.Keyed := by simp [store₀, Backend.Keyed, Backend.asMemory, MemoryStore.Keyed]
  let s := solo 0 .clear
  have begun : w₀.FreeCourse s store₀ _ _ _ := .begin rfl (.refl _) rfl
  have collected := begun.answer (s := s) rfl (fun is => by cases is) rfl (.refl _) rfl
  have refreshed := collected.answer (s := s) rfl (fun is => by cases is) rfl (.refl _) rfl
  have claimed := refreshed.answer (s := s) rfl (fun is => by cases is) rfl (.refl _) rfl
  have selected := claimed.select (s := s) rfl rfl rfl rfl (fun _ => Iff.rfl) (.refl _)
  have purged := selected.answer (s := s) rfl (fun is => by cases is) rfl (.refl _) rfl
  have done := purged.answer (s := s) rfl (fun is => by cases is) rfl (.refl _) rfl
  have begun' : w₀.FreeCourse s store₀ _ _ _ := .begin rfl (List.reverse_perm w₀.slots) rfl
  have collected' := begun'.answer (s := s) rfl (fun is => by cases is) rfl (.refl _) rfl
  have refreshed' := collected'.answer (s := s) rfl (fun is => by cases is) rfl (.refl _) rfl
  have claimed' := refreshed'.answer (s := s) rfl (fun is => by cases is) rfl (.refl _) rfl
  have selected' := claimed'.select (s := s) rfl rfl rfl rfl told
    (by decide : ["x", "z", "y"].Perm ["z", "y", "x"])
  have purged' := selected'.answer (s := s) rfl (fun is => by cases is) rfl (.refl _) rfl
  have done' := purged'.answer (s := s) rfl (fun is => by cases is) rfl (.refl _) rfl
  obtain ⟨rows, _, events, _⟩ := (cycle_in_any_order keyed keyed').1 _ _ _ _ _ _ done done'
    (List.mem_append_right _ (List.mem_append_right _ (.head _)))
    (List.mem_append_right _ (List.mem_append_right _ (.head _)))
  refine ⟨_, _, _, _, _, _, keyed, keyed', done, done',
    List.mem_append_right _ (List.mem_append_right _ (.head _)),
    List.mem_append_right _ (List.mem_append_right _ (.head _)), ?_, ?_, rows, events "x"⟩
  · decide +kernel
  · decide +kernel

end Worker

end Leasehold
